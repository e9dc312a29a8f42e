import ProgramHost.Proofs.Diagnostic.Wording
import ProgramHost.Proofs.Host
import ProgramHost.Proofs.Program.FaultCalls
import ProgramHost.Proofs.Program.Fuel
/-!
# The three ways in which a run ends

A run that ends gives a value, is stopped by a fault, or fails. The three cannot be
mixed up: a value goes with a silent sink and no call of the fault import, a fault
with exactly one call and the diagnostic of that call, and a failure with no call and
the diagnostic of its messages. In each case one record is logged.
-/

namespace ProgramHost

open Program

/-- A run that ends with a value gets to its end: the entry point returns, and the
memory that it leaves is offered and holds the value. -/
theorem Program.Executable.Ends.exists_returned {x : Executable} {s : Settings} {fuel : Nat}
    {v : Value} (h : x.Ends s fuel (.value v)) :
    ∃ m₀ i m, x.instantiate s fuel = some (.ok m₀) ∧ x.entry s.entryPoint = .ok i ∧
      x.invoke fuel i m₀ = some (.ok m) ∧
      x.definition.lookup? s.memoryExport = some .memory ∧ v = Value.decode m.image := by
  generalize he : Ending.value v = e at h
  cases h with
  | @stopped stop => cases stop <;> cases he
  | unentered => cases he
  | @halted _ _ stop => cases stop <;> cases he
  | @returned m₀ m i hstart hentry hcall =>
      unfold Executable.finish at he
      split at he
      · next hoffers =>
          cases he
          exact ⟨m₀, i, m, hstart, hentry, hcall, of_decide_eq_true hoffers, rfl⟩
      · cases he

namespace Host

section

variable (x : Executable) (s : Settings) (fuel : Nat) (sink : String)

/-- The run ends with a value: the one that is in the offered memory when the entry
point has returned. After the events `k` the events `j` add nothing to any sink. -/
structure EndsInValue (k j : Journal) (r : Except RunError Value) (v : Value) : Prop where
  result : r = .ok v
  calls : x.calls s fuel = []
  notes : j.notes = [.decoded v]
  sinks : ∀ name, Journal.sink (k ++ j) name = k.sink name
  decoded : ∃ m₀ i m, x.instantiate s fuel = some (.ok m₀) ∧ x.entry s.entryPoint = .ok i ∧
    x.invoke fuel i m₀ = some (.ok m) ∧
    x.definition.lookup? s.memoryExport = some .memory ∧ v = Value.decode m.image

/-- The run ends with a fault: the one call of the fault import is recorded and reported
once. The report has the words that the table gives for the code of the call. Its place is
the single column of the call, which is empty only at the last column. -/
structure EndsInFault (k j : Journal) (r : Except RunError Value) (c : FaultCall) : Prop where
  result : r = .error .faulted
  calls : x.calls s fuel = [c]
  notes : j.notes = [.faulted c]
  sink_eq : ∃ explain elaborate, Fault.Worded c.code explain elaborate ∧
    Journal.sink (k ++ j) sink = k.sink sink ++
      [⟨.runtime, .error, ⟨⟨c.line, c.column⟩,
        ⟨c.line, if c.column = 0xFFFFFFFF then c.column else c.column + 1⟩⟩,
        explain, elaborate⟩]
  others : ∀ name, name ≠ sink → Journal.sink (k ++ j) name = k.sink name

/-- The run ends with a failure: all its messages are recorded and reported once, on one
line, and there is no place to report. -/
structure EndsInFailure (k j : Journal) (r : Except RunError Value) (e : Failure) : Prop where
  result : r = .error (.failed e)
  calls : x.calls s fuel = []
  notes : j.notes = [.failed (": ".intercalate (e.message :: e.sources))]
  sink_eq : Journal.sink (k ++ j) sink = k.sink sink ++
    [⟨.runtime, .error, ⟨⟨0, 0⟩, ⟨0, 0⟩⟩, ": ".intercalate (e.message :: e.sources),
      ": ".intercalate (e.message :: e.sources)⟩]
  others : ∀ name, name ≠ sink → Journal.sink (k ++ j) name = k.sink name

end

variable {x : Executable} {s : Settings} {fuel : Nat} {sink : String} {k j : Journal}
  {r : Except RunError Value}

theorem run?_unique {fuel' : Nat} {j' : Journal} {r' : Except RunError Value}
    (h : Host.run? fuel s sink x = some (j, r)) (h' : Host.run? fuel' s sink x = some (j', r')) :
    j = j' ∧ r = r' := by
  obtain ⟨ending, hrun, heq⟩ := Option.map_eq_some_iff.1 h
  obtain ⟨ending', hrun', heq'⟩ := Option.map_eq_some_iff.1 h'
  have hends := (x.run?_eq_some_iff s fuel ending).1 hrun
  have hends' := (x.run?_eq_some_iff s fuel' ending').1 hrun'
  rw [hends.unique hends'] at heq
  exact Prod.mk.inj (heq.symm.trans heq')

/-- A run that ends is the same with any fuel that is enough, and exactly one of three
things is true of it. -/
theorem run_ends_in_one_way (h : Host.run? fuel s sink x = some (j, r)) (k : Journal) :
    (∀ fuel' j' r', Host.run? fuel' s sink x = some (j', r') → j' = j ∧ r' = r) ∧
      ((∃ v, EndsInValue x s fuel k j r v) ∧ (¬∃ c, EndsInFault x s fuel sink k j r c) ∧
          (¬∃ e, EndsInFailure x s fuel sink k j r e) ∨
        (¬∃ v, EndsInValue x s fuel k j r v) ∧ (∃ c, EndsInFault x s fuel sink k j r c) ∧
          (¬∃ e, EndsInFailure x s fuel sink k j r e) ∨
        (¬∃ v, EndsInValue x s fuel k j r v) ∧ (¬∃ c, EndsInFault x s fuel sink k j r c) ∧
          (∃ e, EndsInFailure x s fuel sink k j r e)) := by
  refine ⟨fun fuel' j' r' h' => run?_unique h' h, ?_⟩
  obtain ⟨ending, hrun, heq⟩ := Option.map_eq_some_iff.1 h
  obtain ⟨rfl, rfl⟩ := Prod.mk.inj heq
  have hends := (x.run?_eq_some_iff s fuel ending).1 hrun
  have hcalls := hends.calls_eq
  have hnotes := ending.notes_events sink
  have hsink (name : String) : Journal.sink (k ++ ending.events sink) name =
      k.sink name ++ if sink = name then ending.diagnostic?.toList else [] := by
    rw [Journal.sink_append, ending.sink_events]
  have hothers (name : String) (hne : name ≠ sink) :
      Journal.sink (k ++ ending.events sink) name = k.sink name := by
    rw [hsink, if_neg hne.symm, List.append_nil]
  have hown : Journal.sink (k ++ ending.events sink) sink =
      k.sink sink ++ ending.diagnostic?.toList := by
    rw [hsink, if_pos rfl]
  cases ending with
  | value v =>
      refine .inl ⟨⟨v, rfl, hcalls, hnotes, fun name => ?_, hends.exists_returned⟩, ?_, ?_⟩
      · rw [hsink, Ending.diagnostic?]
        exact (congrArg _ (ite_self _)).trans (List.append_nil _)
      · rintro ⟨c, hc⟩
        cases hc.result
      · rintro ⟨e, he⟩
        cases he.result
  | fault c =>
      refine .inr (.inl ⟨?_, ⟨c, rfl, hcalls, hnotes,
        ⟨_, _, Fault.worded_iff.2 ⟨rfl, rfl⟩, hown⟩, hothers⟩, ?_⟩)
      · rintro ⟨v, hv⟩
        cases hv.result
      · rintro ⟨e, he⟩
        cases he.result
  | failure e =>
      refine .inr (.inr ⟨?_, ?_, ⟨e, rfl, hcalls, hnotes, hown, hothers⟩⟩)
      · rintro ⟨v, hv⟩
        cases hv.result
      · rintro ⟨c, hc⟩
        cases hc.result

end Host

/-- A module whose entry point calls a function that reports a fault in a loop, when it
comes to the second turn. -/
def faulting : Definition where
  imports := [⟨"env", "fault", .function faultSignature⟩]
  memory := some ⟨16, none⟩
  hasGlobal := false
  segments := []
  functions := [⟨plainSignature, [.call 1, .act .unreachable]⟩,
    ⟨plainSignature, [.loop (.const 1)
      [.branch (.slot 0)
          [.act (.fault (.const 0x17) (.const 0) (.const 0) (.slot 0) (.const 7))] [],
        .act (.set 0 (.const 3))]]⟩]
  exports := [⟨"memory", .memory⟩, ⟨"main", .function 0⟩]
  start := none

theorem faulting_valid : faulting.Valid := by decide

/-- The run of the module ends with the fault that it reports in the second turn, told
behind what was in the sink. -/
theorem faulting_ends_in_fault :
    ∃ j r, Host.run? 10 {} "main" ⟨faulting, faulting_valid⟩ = some (j, r) ∧
      Host.EndsInFault ⟨faulting, faulting_valid⟩ {} 10 "main"
        [.report "main" (.ofFailure "old")] j r ⟨0x17, 0, 0, 3, 7⟩ ∧
      Journal.sink ([.report "main" (.ofFailure "old")] ++ j) "main" =
        [.ofFailure "old", ⟨.runtime, .error, ⟨⟨3, 7⟩, ⟨3, 8⟩⟩,
          "Conditional given a non-boolean condition",
          "The condition of an if or while must evaluate to a boolean."⟩] := by
  obtain ⟨j, r, h⟩ : ∃ j r, Host.run? 10 {} "main" ⟨faulting, faulting_valid⟩ = some (j, r) :=
    ⟨_, _, rfl⟩
  refine ⟨j, r, h, ?_⟩
  rcases (Host.run_ends_in_one_way h [.report "main" (.ofFailure "old")]).2 with
    ⟨⟨v, hv⟩, -, -⟩ | ⟨-, ⟨c, hc⟩, -⟩ | ⟨-, -, ⟨e, he⟩⟩
  · cases h
    cases hv.result
  · have hcalls : [c] = [⟨0x17, 0, 0, 3, 7⟩] := hc.calls.symm
    obtain rfl : c = ⟨0x17, 0, 0, 3, 7⟩ := List.singleton_inj.1 hcalls
    obtain ⟨explain, elaborate, hworded, hsink⟩ := hc.sink_eq
    obtain ⟨rfl, rfl⟩ := Fault.worded_iff.1 hworded
    exact ⟨hc, hsink⟩
  · cases h
    cases he.result

end ProgramHost
