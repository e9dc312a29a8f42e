import ProgramHost.Proofs.Pipeline.Serve
import ProgramHost.Proofs.Program.Endings
/-!
# What a call leaves in the sinks

A call that compiles reports to its own sink only, and in this order: what the
parser finds, what the compiler remarks, and at most one diagnostic about how the
call ended. `Closing` says for each end which remarks there can be and which
diagnostic stands last. It is proved for the compilation alone first, and going on
with a run adds nothing to it but the end of the run.
-/

namespace ProgramHost

open Program

/-- The remarks of a failed compilation, and what is reported after them. -/
def CompileError.Closing (script : Script) (cs : List Remark) (tail : List Diagnostic) :
    CompileError → Prop
  | .unparsed => cs = [] ∧ tail = []
  | .unserialized _ => cs = [] ∧ tail = []
  | .backend _ => tail = []
  | .flagged => (∃ q ∈ cs, 4 ≤ q.severityCode) ∧ tail = []
  | .invalid =>
      (∀ q ∈ cs, q.severityCode < 4) ∧
        ∃ b message, script.product = .module b ∧ Host.validate b = .error message ∧
          tail = [⟨.syntactic, .error, ⟨⟨0, 0⟩, ⟨0, 0⟩⟩, message,
            "The generated module failed host validation. This is likely a bug in the compiler."⟩]

def Compiled.Closing (script : Script) (cs : List Remark) (tail : List Diagnostic) :
    Compiled → Prop
  | .module _ => (∀ q ∈ cs, q.severityCode < 4) ∧ tail = []
  | .error e => e.Closing script cs tail
  | .panic _ => tail = []

/-- The remarks of a call with a result, and what is reported after them: at most one diagnostic,
which the result decides. Beside a module no remark is an error. -/
def Result.Closing (script : Script) (cs : List Remark) (tail : List Diagnostic) :
    Result → Prop
  | .compileError e => e.Closing script cs tail
  | .evalError (.compile e) => e.Closing script cs tail
  | .evalError (.run _) =>
      (∀ q ∈ cs, q.severityCode < 4) ∧
        ∃ d, tail = [d] ∧ d.kind = .runtime ∧ d.severity = .error
  | .panic _ => tail = []
  | _ => (∀ q ∈ cs, q.severityCode < 4) ∧ tail = []

/-! What the parts of a call report, they report to the sink of the call. -/

theorem sink_append_of_reports {j k : Journal} {sink : String} {ds es : List Diagnostic}
    (hj : ∀ name, j.sink name = if sink = name then ds else [])
    (hk : ∀ name, k.sink name = if sink = name then es else []) (name : String) :
    Journal.sink (j ++ k) name = if sink = name then ds ++ es else [] := by
  rw [Journal.sink_append, hj, hk]
  by_cases h : sink = name <;> simp [h]

theorem Parser.Serializes.sink_compile {parser : Parser} {compiler : Compiler} {s : Settings}
    {sink : String} {id : Nat} {source text : String} {tail : List Diagnostic}
    (h : parser.Serializes source text)
    (htail : ∀ name, ((compiler id).aftermath sink).sink name = if sink = name then tail else [])
    (name : String) :
    Journal.sink (compile parser compiler s sink id source).1 name =
      if sink = name then
        (parser source).1 ++ (compiler id).remarks.map Remark.diagnostic ++ tail
      else [] := by
  rw [ProgramHost.sink_compile, (parser.document_eq_ok_iff source text).2 h, htail]
  by_cases hname : sink = name <;> simp [hname]

theorem Outcome.closing {parser : Parser} {compiler : Compiler} {id : Nat} {source : String}
    {o : Compiled} (h : Outcome parser (compiler id) source o) (s : Settings) (sink : String) :
    ∃ cs tail,
      (∀ name, Journal.sink (compile parser compiler s sink id source).1 name =
        if sink = name then (parser source).1 ++ cs.map Remark.diagnostic ++ tail else []) ∧
      ((∃ text, parser.Serializes source text) → cs = (compiler id).remarks) ∧
      o.Closing (compiler id) cs tail := by
  cases h with
  | unparsed htree =>
      refine ⟨[], [], fun name => ?_, ?_, rfl, rfl⟩
      · rw [sink_compile, (parser.document_eq_unparsed_iff source).2 htree]
        by_cases hname : sink = name <;> simp [hname]
      · rintro ⟨text, tree, htree', -⟩
        rw [htree] at htree'
        cases htree'
  | @unserialized tree e htree htext =>
      refine ⟨[], [], fun name => ?_, ?_, rfl, rfl⟩
      · rw [sink_compile, (parser.document_eq_unserialized_iff source e).2 ⟨tree, htree, htext⟩]
        by_cases hname : sink = name <;> simp [hname]
      · rintro ⟨text, tree', htree', htext'⟩
        obtain rfl : tree = tree' := Option.some.inj (htree.symm.trans htree')
        rw [htext] at htext'
        cases htext'
  | panic hs hp =>
      refine ⟨_, [], hs.sink_compile fun name => ?_, fun _ => rfl, rfl⟩
      simp [Script.sink_aftermath, hp]
  | backend hs hp =>
      refine ⟨_, [], hs.sink_compile fun name => ?_, fun _ => rfl, rfl⟩
      simp [Script.sink_aftermath, hp]
  | flagged hs hp hf =>
      refine ⟨_, [], hs.sink_compile fun name => ?_, fun _ => rfl,
        (Script.flagged_iff _).1 hf, rfl⟩
      simp [Script.sink_aftermath, hp, hf]
  | @invalid text b message hs hp hf hv =>
      refine ⟨_, [.ofRejection message], hs.sink_compile fun name => ?_, fun _ => rfl,
        (Script.flagged_eq_false_iff _).1 hf, b, message, hp, hv, rfl⟩
      simp [Script.sink_aftermath, hp, hf, Host.sink_accept, hv]
  | module hs hp hf hv =>
      refine ⟨_, [], hs.sink_compile fun name => ?_, fun _ => rfl,
        (Script.flagged_eq_false_iff _).1 hf, rfl⟩
      simp [Script.sink_aftermath, hp, hf, Host.sink_accept, hv]

/-- Going on after a compilation adds the end of a run, if there is one. -/
theorem Concludes.closing {s : Settings} {sink : String} {purpose : Purpose} {o : Compiled}
    {r : Result} {k : Journal} {script : Script} {cs : List Remark} {tail : List Diagnostic}
    (h : Concludes s sink purpose o r k) (ho : o.Closing script cs tail) :
    ∃ rest, (∀ name, k.sink name = if sink = name then rest else []) ∧
      r.Closing script cs (tail ++ rest) := by
  cases h with
  | kept => exact ⟨[], by simp, by rw [List.append_nil]; exact ho⟩
  | refused => exact ⟨[], by simp, by rw [List.append_nil]; exact ho⟩
  | unevaluated => exact ⟨[], by simp, by rw [List.append_nil]; exact ho⟩
  | panicked => exact ⟨[], by simp, by rw [List.append_nil]; exact ho⟩
  | ran hrun =>
      obtain ⟨hclean, rfl⟩ := ho
      obtain ⟨e, -, he⟩ := Option.map_eq_some_iff.1 hrun
      obtain ⟨rfl, rfl⟩ := Prod.mk.inj he
      refine ⟨e.diagnostic?.toList, e.sink_events sink, ?_⟩
      cases e with
      | value v => exact ⟨hclean, rfl⟩
      | fault c => exact ⟨hclean, _, rfl, rfl, rfl⟩
      | failure e => exact ⟨hclean, _, rfl, rfl, rfl⟩

/-- A call that compiles is closed as its result says, and its events reach no sink
but its own. -/
theorem Served.closing {p : Pipeline} {σ : Session} {sink : String} {c : Call} {r : Result}
    {j : Journal} {source : String} (hsource : c.source? = some source)
    (h : Served p σ sink c r j) :
    ∃ cs tail,
      (∀ name, j.sink name =
        if sink = name then (p.parser source).1 ++ cs.map Remark.diagnostic ++ tail else []) ∧
      ((∃ text, p.parser.Serializes source text) → cs = (p.compiler σ.nextId).remarks) ∧
      r.Closing (p.compiler σ.nextId) cs tail := by
  cases h with
  | ran => cases hsource
  | missing => cases hsource
  | @compiled _ source' purpose _ k hsource' _ hk =>
      obtain rfl : source' = source := Option.some.inj (hsource'.symm.trans hsource)
      have hout := outcome_compile p.parser p.compiler p.settings sink σ.nextId source'
      obtain ⟨cs, tail, hsink, hcs, hclosing⟩ := hout.closing p.settings sink
      obtain ⟨rest, hrest, hresult⟩ := hk.closing hclosing
      refine ⟨cs, tail ++ rest, fun name => ?_, hcs, hresult⟩
      rw [sink_append_of_reports hsink hrest, List.append_assoc _ tail rest]

/-- A call that compiles leaves in its sink all that was there, then what the parser
reports, then one diagnostic for each remark of the compiler, then what belongs to
its result. No other sink changes. -/
theorem sink_grows_by_parser_compiler_result (p : Pipeline) (σ : Session) (sink : String)
    {c : Call} {source : String} (hc : c.source? = some source) :
    ((∃ name, c = .compile source name) →
      ∀ fuel, (p.step? fuel σ (.serve sink c)).isSome) ∧
    ∀ fuel a τ, p.step? fuel σ (.serve sink c) = some (a, τ) →
      ∃ r n cs tail, a = .served r n ∧
        τ.journal.sink sink =
          σ.journal.sink sink ++ (p.parser source).1 ++
            cs.map (fun q : Remark =>
              ⟨.syntactic, if 4 ≤ q.severityCode then .error else .warning,
                ⟨⟨q.line, q.column⟩,
                  ⟨q.line, if q.column = 0xFFFFFFFF then q.column else q.column + 1⟩⟩,
                q.message, ""⟩) ++
            tail ∧
        ((∃ text, p.parser.Serializes source text) → cs = (p.compiler σ.nextId).remarks) ∧
        r.Closing (p.compiler σ.nextId) cs tail ∧
        (∀ name, σ.journal.sink name <+: τ.journal.sink name) ∧
        ∀ name, name ≠ sink → τ.journal.sink name = σ.journal.sink name := by
  constructor
  · rintro ⟨name, rfl⟩ fuel
    rw [Pipeline.step?, Option.isSome_map]
    exact p.serve?_compile_isSome fuel σ sink source name
  intro fuel a τ h
  obtain ⟨r, n, j, ha, hj, hjournal⟩ := Pipeline.step?_serve_served h
  obtain ⟨cs, tail, hsink, hcs, hclosing⟩ := hj.closing hc
  have hname : ∀ name, τ.journal.sink name = σ.journal.sink name ++ j.sink name := by
    intro name
    rw [hjournal, Journal.sink_append]
  refine ⟨r, n, cs, tail, ha, ?_, hcs, hclosing, ?_, ?_⟩
  · rw [hname, hsink, if_pos rfl, ← List.append_assoc, ← List.append_assoc]
    rfl
  · intro name
    rw [hname]
    exact List.prefix_append _ _
  · intro name hne
    rw [hname, hsink, if_neg hne.symm, List.append_nil]

/-- A pipeline whose compiler has remarks and gives out the module. -/
def remarking : Pipeline where
  parser := .ofTable [⟨4, "odd name", 1, 1⟩] []
  compiler := fun _ =>
    ⟨[⟨0, "begun", 1, 1⟩], [⟨1, "condition is a number", 2, 3⟩], 1, [], .module (.defined faulting),
      [⟨3, "left", 4, 4⟩]⟩
  settings := {}

theorem remarking_sink :
    ∃ a τ, remarking.step? 10 (Session.initial.log [.report "log" (.ofFailure "old")])
        (.serve "main" (.evaluate "if 1 { }")) = some (a, τ) ∧
      a = .served (.evalError (.run .faulted)) 2 ∧
      (τ.journal.sink "main").length = 5 ∧
      τ.journal.sink "log" = [.ofFailure "old"] := by
  obtain ⟨a, τ, h⟩ : ∃ a τ,
      remarking.step? 10 (Session.initial.log [.report "log" (.ofFailure "old")])
        (.serve "main" (.evaluate "if 1 { }")) = some (a, τ) := ⟨_, _, rfl⟩
  have hgrows := (sink_grows_by_parser_compiler_result remarking
    (Session.initial.log [.report "log" (.ofFailure "old")]) "main" rfl).2 10 a τ h
  obtain ⟨-, -, -, -, -, -, -, -, -, hframe⟩ := hgrows
  refine ⟨a, τ, h, ?_, ?_, ?_⟩
  · cases h
    rfl
  · cases h
    rfl
  · rw [hframe "log" (by decide)]
    rfl

end ProgramHost
