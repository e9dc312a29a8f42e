import ProgramHost.CommandLine.Reply
import ProgramHost.Proofs.Pipeline.Serve
import ProgramHost.Proofs.Program.Names
/-!
# Bytes that are run directly

Bytes can be run without a source text: the host validates them and runs what they
give. A pipeline gets to the same bytes by way of a parser and a compiler. If these two
have nothing to say, then the evaluation of the source text cannot be told from the
direct run of the bytes, neither by its result nor by what is reported nor by the records
of the host and of the run. What the pipeline adds are records of the compilation.
-/

namespace ProgramHost

open Program

namespace Journal

def records (j : Journal) : List Note :=
  j.notes.filter fun n => n.target = "host" ∨ n.target = "run"

theorem records_append (j k : Journal) : records (j ++ k) = j.records ++ k.records := by
  simp [records, notes_append]

end Journal

def Result.ofEval : Except EvalError Value → Result
  | .ok v => .value v
  | .error e => .evalError e

/-- A journal in which nothing is reported, validated or run. -/
structure Journal.Silent (j : Journal) : Prop where
  sink_eq : ∀ name, j.sink name = []
  records_eq : j.records = []

/-- Two journals that report the same, each to its sink only, and hold the same records of the
host and of the run. What else happened in them may differ. -/
structure Journal.Alike (sink sink' : String) (j j' : Journal) : Prop where
  sink_eq : j.sink sink = j'.sink sink'
  others : ∀ name, name ≠ sink → j.sink name = []
  records_eq : j.records = j'.records

theorem Journal.Silent.append_alike {i j j' : Journal} {sink sink' : String} (hi : i.Silent)
    (h : Journal.Alike sink sink' j j') : Journal.Alike sink sink' (i ++ j) j' where
  sink_eq := by rw [Journal.sink_append, hi.sink_eq, List.nil_append, h.sink_eq]
  others := by
    intro name hname
    rw [Journal.sink_append, hi.sink_eq, h.others name hname, List.append_nil]
  records_eq := by rw [Journal.records_append, hi.records_eq, List.nil_append, h.records_eq]

theorem Host.alike_of_refused (sink sink' message : String) :
    Journal.Alike sink sink'
      [.note (.rejected message), .report sink (.ofRejection message)]
      [.note (.rejected message), .report sink' (.ofRejection message)] where
  sink_eq := by simp [Journal.sink_cons, Event.reported?]
  others := by
    intro name hname
    simp [Journal.sink_cons, Event.reported?, hname.symm]
  records_eq := rfl

theorem Program.Ending.alike_of_validated (e : Ending) (sink sink' : String) :
    Journal.Alike sink sink' (.note .validated :: e.events sink)
      (.note .validated :: e.events sink') where
  sink_eq := by simp [Journal.sink_cons, Event.reported?, sink_events]
  others := by
    intro name hname
    simp [Journal.sink_cons, Event.reported?, sink_events, hname.symm]
  records_eq := by simp [Journal.records, Journal.notes_cons, notes_events]

/-- The same bytes go the same way, whatever sink they report to. -/
theorem Host.Executes.alike {fuel : Nat} {s : Settings} {sink sink' : String} {b : Binary}
    {j j' : Journal} {r r' : Except EvalError Value} (h : Host.Executes fuel s sink b j r)
    (h' : Host.Executes fuel s sink' b j' r') : r = r' ∧ Journal.Alike sink sink' j j' := by
  cases h with
  | @refused message hv =>
      cases h' with
      | refused hv' =>
          cases hv.symm.trans hv'
          exact ⟨rfl, Host.alike_of_refused sink sink' message⟩
      | ran hv' _ => cases hv.symm.trans hv'
  | @ran x e hv hrun =>
      cases h' with
      | refused hv' => cases hv.symm.trans hv'
      | ran hv' hrun' =>
          cases hv.symm.trans hv'
          cases hrun.symm.trans hrun'
          exact ⟨rfl, e.alike_of_validated sink sink'⟩

theorem Host.execute?_options (fuel : Nat) (s : Settings) (options sink : String)
    (b : Binary) :
    Host.execute? fuel { s with compileOptions := options } sink b =
      Host.execute? fuel s sink b := by
  simp only [Host.execute?, Host.run?, Executable.run?_options]

/-- A compilation by a parser and a compiler without remarks: nothing is reported up to the
bytes, and it comes to what the host makes of them. -/
theorem compile_of_no_remarks {parser : Parser} {compiler : Compiler} {id : Nat}
    {source text : String} {b : Binary} (hs : parser.Serializes source text)
    (hreports : (parser source).1 = []) (hproduct : (compiler id).product = .module b)
    (hremarks : (compiler id).remarks = []) (s : Settings) (sink : String) :
    ∃ before, Journal.Silent before ∧
      compile parser compiler s sink id source =
        (before ++ (Host.accept sink b).1,
          match Host.validate b with
          | .ok x => .module x
          | .error _ => .error .invalid,
          (compiler id).pauses) := by
  have hflagged : (compiler id).flagged = false := by rw [Script.flagged, hremarks]; rfl
  refine ⟨parser.prologue sink source text ++
    (compiler id).life sink id text s.compileOptions ++ [.note (.produced b.size?)], ?_, ?_⟩
  · constructor
    · intro name
      simp [Journal.sink_append, Parser.sink_prologue, Script.sink_life, Journal.sink_cons,
        Event.reported?, hreports, hremarks]
    · simp [Journal.records, Journal.notes_append, Parser.notes_prologue, Script.notes_life,
        Journal.notes_cons, Event.note?, Note.target]
  · rw [compile_eq, (parser.document_eq_ok_iff source text).2 hs]
    simp only [Script.aftermath, Script.verdict, hproduct, hflagged]
    cases Host.validate b <;> simp

/-- An evaluation without remarks is the direct run of the bytes after a journal in which
nothing happens but the compilation. -/
theorem Pipeline.step?_evaluate_of_no_remarks {p : Pipeline} {σ : Session}
    {source text : String} {b : Binary} (hs : p.parser.Serializes source text)
    (hreports : (p.parser source).1 = [])
    (hproduct : (p.compiler σ.nextId).product = .module b)
    (hremarks : (p.compiler σ.nextId).remarks = []) (sink : String) (fuel : Nat) :
    ∃ before, Journal.Silent before ∧
      p.step? fuel σ (.serve sink (.evaluate source)) =
        (Host.execute? fuel p.settings sink b).map fun q =>
          (.served (Result.ofEval q.2) ((p.compiler σ.nextId).pauses + 1),
            σ.log (before ++ q.1)) := by
  obtain ⟨before, hbefore, hcompile⟩ :=
    compile_of_no_remarks hs hreports hproduct hremarks p.settings sink
  refine ⟨before, hbefore, ?_⟩
  simp only [step?, serve?, compileFor?_eq, hcompile, Host.execute?, Host.accept]
  cases Host.validate b with
  | error message => rfl
  | ok x =>
      simp only [conclude?, Option.map_map]
      congr 1
      ext1 ⟨k, q⟩
      cases q <;> simp [evalResult, Result.ofEval, Session.log, Except.mapError]

/-- An evaluation by a parser and a compiler without remarks goes as the bytes go when
they are run directly: to the same value, or to the same error with its message and its
causes. It reports the same to its sink and nothing to any other, with the same records of
the host and of the run in the same order; and it is not over as long as the run is not. -/
theorem evaluation_agrees_with_direct_run (p : Pipeline) (σ : Session) (sink : String)
    {source text : String} {b : Binary} (hs : p.parser.Serializes source text)
    (hreports : (p.parser source).1 = [])
    (hproduct : (p.compiler σ.nextId).product = .module b)
    (hremarks : (p.compiler σ.nextId).remarks = []) (options : String) (fuel : Nat) :
    (p.step? fuel σ (.serve sink (.evaluate source)) = none ↔
        Host.execute? fuel { p.settings with compileOptions := options }
          CommandLine.sinkName b = none) ∧
      ∀ a τ j r, p.step? fuel σ (.serve sink (.evaluate source)) = some (a, τ) →
        Host.execute? fuel { p.settings with compileOptions := options }
            CommandLine.sinkName b = some (j, r) →
          (∃ polls, a = .served (Result.ofEval r) polls) ∧
            τ.journal.sink sink = σ.journal.sink sink ++ j.sink CommandLine.sinkName ∧
            (∀ name, name ≠ sink → τ.journal.sink name = σ.journal.sink name) ∧
            τ.journal.records = σ.journal.records ++ j.records := by
  obtain ⟨before, hbefore, hstep⟩ :=
    Pipeline.step?_evaluate_of_no_remarks hs hreports hproduct hremarks sink fuel
  rw [hstep, Host.execute?_options fuel p.settings options CommandLine.sinkName b,
    Option.map_eq_none_iff]
  refine ⟨by simp only [Host.execute?_eq_none_iff], fun a τ j r h hdirect => ?_⟩
  obtain ⟨⟨k, q⟩, hexecute, heq⟩ := Option.map_eq_some_iff.1 h
  obtain ⟨rfl, rfl⟩ := Prod.mk.inj heq
  rw [Host.execute?_eq_some_iff] at hexecute hdirect
  obtain ⟨rfl, halike⟩ := hexecute.alike hdirect
  have hafter := hbefore.append_alike halike
  refine ⟨⟨_, rfl⟩, ?_, fun name hname => ?_, ?_⟩
  · exact (Journal.sink_append _ _ sink).trans (congrArg _ hafter.sink_eq)
  · refine (Journal.sink_append _ _ name).trans ?_
    rw [hafter.others name hname, List.append_nil]
  · exact (Journal.records_append _ _).trans (congrArg _ hafter.records_eq)

/-- A pipeline whose parser and compiler have nothing to say. -/
def mute : Pipeline where
  parser := .ofTable [] []
  compiler := fun _ => ⟨[], [], 2, [], .module (.defined faulting), []⟩
  settings := { compileOptions := "-O2" }

theorem mute_faults_as_direct_run :
    ∃ a τ j polls,
      mute.step? 10 (Session.initial.log [.report "log" (.ofFailure "old")])
          (.serve "log" (.evaluate "x")) = some (a, τ) ∧
        Host.execute? 10 {} CommandLine.sinkName (.defined faulting) =
          some (j, .error (.run .faulted)) ∧
        a = .served (.evalError (.run .faulted)) polls ∧
        τ.journal.sink "log" = .ofFailure "old" :: j.sink CommandLine.sinkName ∧
        τ.journal.records = j.records := by
  obtain ⟨j, hj⟩ : ∃ j, Host.execute? 10 {} CommandLine.sinkName (.defined faulting) =
      some (j, .error (.run .faulted)) := ⟨_, rfl⟩
  obtain ⟨a, τ, h⟩ : ∃ a τ,
      mute.step? 10 (Session.initial.log [.report "log" (.ofFailure "old")])
        (.serve "log" (.evaluate "x")) = some (a, τ) := ⟨_, _, rfl⟩
  obtain ⟨⟨polls, ha⟩, hsink, -, hrecords⟩ :=
    (evaluation_agrees_with_direct_run mute
      (Session.initial.log [.report "log" (.ofFailure "old")]) "log" ⟨_, rfl, rfl⟩ rfl rfl rfl
      "" 10).2 a τ j _ h hj
  exact ⟨a, τ, j, polls, h, hj, ha, hsink, hrecords⟩

end ProgramHost
