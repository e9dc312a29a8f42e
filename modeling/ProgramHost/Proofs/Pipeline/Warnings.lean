import ProgramHost.Proofs.Pipeline.Sinks
/-!
# What is reported beside a module

A parser that does not accept a source text gives no tree; what it reports on the way
to a tree does not count. So the flag that decides whether there is a module is set by
the remarks of the compiler alone. Beside a module the compiler has only warned, and an
error there is one that the parser reported with the tree.
-/

namespace ProgramHost

/-- The call came to a module, which was kept or was run to its end. -/
def Result.HasModule : Result → Prop
  | .module => True
  | .value _ => True
  | .evalError (.run _) => True
  | _ => False

theorem Remark.severity_diagnostic_eq_warning_iff (q : Remark) :
    q.diagnostic.severity = .warning ↔ q.severityCode < 4 := by
  have hne : q.diagnostic.severity = .warning ↔ q.diagnostic.severity ≠ .error := by
    cases q.diagnostic.severity <;> simp
  rw [hne, ← UInt32.not_le]
  exact not_congr (Severity.ofCode_eq_error_iff q.severityCode)

/-- Beside a module the sink gets what the parser reports and the remarks of the
compiler, all of them warnings. -/
theorem Outcome.reports_of_module {parser : Parser} {compiler : Compiler} {id : Nat}
    {source : String} {x : Program.Executable}
    (h : Outcome parser (compiler id) source (.module x)) (s : Settings) (sink : String) :
    Journal.sink (compile parser compiler s sink id source).1 sink =
        (parser source).1 ++ (compiler id).remarks.map Remark.diagnostic ∧
      ∀ q ∈ (compiler id).remarks, q.diagnostic.severity = .warning := by
  obtain ⟨text, b, hs, -, hclean, -⟩ := (outcome_module_iff parser (compiler id) source x).1 h
  obtain ⟨cs, tail, hsink, hcs, -, rfl⟩ := h.closing s sink
  constructor
  · rw [hsink, if_pos rfl, hcs ⟨text, hs⟩, List.append_nil]
  · intro q hq
    exact q.severity_diagnostic_eq_warning_iff.2 (hclean q hq)

theorem Concludes.hasModule_iff {s : Settings} {sink : String} {purpose : Purpose}
    {o : Compiled} {r : Result} {k : Journal} (h : Concludes s sink purpose o r k) :
    r.HasModule ↔ ∃ x, o = .module x := by
  cases h with
  | kept => exact iff_of_true trivial ⟨_, rfl⟩
  | @ran _ x k q hrun =>
      cases q with
      | ok v => exact iff_of_true trivial ⟨x, rfl⟩
      | error e => exact iff_of_true trivial ⟨x, rfl⟩
  | refused => exact iff_of_false id (by simp)
  | unevaluated => exact iff_of_false id (by simp)
  | panicked => exact iff_of_false id (by simp)

namespace Pipeline

variable {p : Pipeline} {σ : Session} {sink : String} {c : Call} {source : String}

theorem exists_module_of_step?_eq_none (hc : c.source? = some source) {fuel : Nat}
    (h : p.step? fuel σ (.serve sink c) = none) :
    ∃ x, (compile p.parser p.compiler p.settings sink σ.nextId source).2.1 = .module x := by
  have hserve : p.serve? fuel σ sink c = none := Option.map_eq_none_iff.1 h
  cases c with
  | run name => cases hc
  | compile source' name =>
      have hsome := p.serve?_compile_isSome fuel σ sink source' name
      rw [hserve] at hsome
      cases hsome
  | evaluate source' =>
      obtain rfl : source' = source := Option.some.inj hc
      rw [serve?, compileFor?_eq, Option.map_eq_none_iff] at hserve
      cases ho : (compile p.parser p.compiler p.settings sink σ.nextId source').2.1 with
      | module x => exact ⟨x, rfl⟩
      | error e =>
          rw [ho] at hserve
          cases hserve
      | panic message =>
          rw [ho] at hserve
          cases hserve

theorem hasModule_of_step? (hc : c.source? = some source) {fuel : Nat} {a : Answer}
    {τ : Session} (h : p.step? fuel σ (.serve sink c) = some (a, τ)) :
    ∃ r polls k, a = .served r polls ∧
      τ.journal = σ.journal ++
        (compile p.parser p.compiler p.settings sink σ.nextId source).1 ++ k ∧
      (r.HasModule ↔
        ∃ x, (compile p.parser p.compiler p.settings sink σ.nextId source).2.1 = .module x) := by
  obtain ⟨r, polls, j, ha, hj, hjournal⟩ := step?_serve_served h
  cases hj with
  | ran => cases hc
  | missing => cases hc
  | @compiled _ source' purpose _ k hsource _ hk =>
      obtain rfl : source' = source := Option.some.inj (hsource.symm.trans hc)
      exact ⟨r, polls, k, ha, by rw [hjournal, List.append_assoc], hk.hasModule_iff⟩

end Pipeline

/-- If a compilation gives a module, its sink got what the parser reported and then
warnings of the compiler, so every error there is one of the parser. An error of the
compiler discards the bytes that come with it. A call goes on with a module exactly if
its compilation gave one. -/
theorem module_only_beside_warnings_of_compiler (p : Pipeline) (σ : Session) (sink : String)
    {c : Call} {source : String} (hc : c.source? = some source) :
    ∃ j o n, compile p.parser p.compiler p.settings sink σ.nextId source = (j, o, n) ∧
      (∀ x, o = .module x →
        j.sink sink =
            (p.parser source).1 ++ (p.compiler σ.nextId).remarks.map Remark.diagnostic ∧
          (∀ q ∈ (p.compiler σ.nextId).remarks, q.diagnostic.severity = .warning) ∧
          ∀ d ∈ j.sink sink, d.severity = .error → d ∈ (p.parser source).1) ∧
      (∀ text b, p.parser.Serializes source text → (p.compiler σ.nextId).product = .module b →
        (∃ q ∈ (p.compiler σ.nextId).remarks, q.diagnostic.severity = .error) →
          o = .error .flagged) ∧
      (∀ fuel, p.step? fuel σ (.serve sink c) = none → ∃ x, o = .module x) ∧
      ∀ fuel a τ, p.step? fuel σ (.serve sink c) = some (a, τ) →
        ∃ r polls k, a = .served r polls ∧ τ.journal = σ.journal ++ j ++ k ∧
          (r.HasModule ↔ ∃ x, o = .module x) := by
  have hr := compile_result_eq_iff p.parser p.compiler p.settings sink σ.nextId source
  have hreports (x : Program.Executable) (hx : _ = Compiled.module x) :=
    ((hr (.module x)).1 hx).reports_of_module p.settings sink
  have hnone (fuel : Nat) := @Pipeline.exists_module_of_step?_eq_none p σ sink c source hc fuel
  have hsome (fuel : Nat) := @Pipeline.hasModule_of_step? p σ sink c source hc fuel
  generalize compile p.parser p.compiler p.settings sink σ.nextId source = out at *
  obtain ⟨j, o, n⟩ := out
  refine ⟨j, o, n, rfl, ?clean, ?flagged, hnone, fun fuel a τ => hsome fuel⟩
  case clean =>
    intro x hx
    obtain ⟨hsink, hwarnings⟩ := hreports x hx
    refine ⟨hsink, hwarnings, fun d hd herror => ?_⟩
    rw [hsink, List.mem_append] at hd
    rcases hd with hd | hd
    · exact hd
    · obtain ⟨q, hq, rfl⟩ := List.mem_map.1 hd
      rw [hwarnings q hq] at herror
      cases herror
  case flagged =>
    rintro text b hs hb ⟨q, hq, herror⟩
    have hcode : 4 ≤ q.severityCode := (Severity.ofCode_eq_error_iff _).1 herror
    exact (hr _).2 (.flagged hs hb ((Script.flagged_iff _).2 ⟨q, hq, hcode⟩))

/-- A pipeline whose parser reports an error and gives a tree all the same. -/
def lenient : Pipeline where
  parser := .ofTable [⟨4, "undefined name", 1, 1⟩] []
  compiler := fun _ =>
    ⟨[], [⟨3, "unused variable", 2, 5⟩], 1, [], .module (.raw Binary.emptyText), []⟩
  settings := {}

theorem lenient_reports_beside_module :
    ∃ j x n, compile lenient.parser lenient.compiler {} "main" 0 "x" = (j, .module x, n) ∧
      (j.sink "main").map Diagnostic.severity = [.error, .warning] ∧
      ∀ d ∈ j.sink "main", d.severity = .error → d ∈ (lenient.parser "x").1 := by
  obtain ⟨j, o, n, h, hmodule, -⟩ :=
    @module_only_beside_warnings_of_compiler lenient .initial "main" (.compile "x" "m") "x" rfl
  cases h
  exact ⟨_, _, _, rfl, rfl, (hmodule _ rfl).2.2⟩

/-- Not all that is reported beside a module is a warning. -/
theorem error_of_parser_beside_module :
    ¬ ∀ (parser : Parser) (compiler : Compiler) (s : Settings) (sink : String) (id : Nat)
        (source : String) (x : Program.Executable),
      (compile parser compiler s sink id source).2.1 = .module x →
        ∀ d ∈ Journal.sink (compile parser compiler s sink id source).1 sink,
          d.severity = .warning := by
  intro h
  have herror : (⟨.syntactic, .error, .point 1 1, "undefined name", ""⟩ : Diagnostic) ∈
      Journal.sink (compile lenient.parser lenient.compiler {} "main" 0 "x").1 "main" := by
    exact List.mem_cons_self
  cases h lenient.parser lenient.compiler {} "main" 0 "x" _ rfl _ herror

end ProgramHost
