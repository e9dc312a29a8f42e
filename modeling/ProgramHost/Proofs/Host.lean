import ProgramHost.Host
import ProgramHost.Proofs.Journal
/-!
# What the host leaves in the journal

The host writes to the journal when it validates a module and when a run ends. In
both cases it makes one record and reports at most one diagnostic, to the sink of the
request and to no other, and it uses no context.
-/

namespace ProgramHost

open Program

namespace Program.Ending

def note : Ending → Note
  | .value v => .decoded v
  | .fault c => .faulted c
  | .failure e => .failed e.description

def diagnostic? : Ending → Option Diagnostic
  | .value _ => none
  | .fault c => some (.ofFault (.ofCode c.code) c.line c.column)
  | .failure e => some (.ofFailure e.description)

theorem notes_events (e : Ending) (sink : String) : (e.events sink).notes = [e.note] := by
  cases e <;> rfl

theorem sink_events (e : Ending) (sink name : String) :
    (e.events sink).sink name = if sink = name then e.diagnostic?.toList else [] := by
  by_cases h : sink = name <;>
    cases e <;> simp [events, diagnostic?, Journal.sink_cons, Event.reported?, h]

theorem uses_events (e : Ending) (sink : String) :
    (e.events sink).uses = [] := by
  cases e <;> rfl

end Program.Ending

namespace Host

section

variable (sink : String) (b : Binary)

theorem notes_accept :
    Journal.notes (accept sink b).1 =
      match validate b with
      | .ok _ => [.validated]
      | .error message => [.rejected message] := by
  unfold accept
  cases validate b <;> rfl

theorem sink_accept (name : String) :
    Journal.sink (accept sink b).1 name =
      match validate b with
      | .ok _ => []
      | .error message => if sink = name then [.ofRejection message] else [] := by
  unfold accept
  cases validate b with
  | ok x => rfl
  | error message => simp [Journal.sink_cons, Event.reported?, apply_ite Option.toList]

@[simp] theorem uses_accept : Journal.uses (accept sink b).1 = [] := by
  unfold accept
  cases validate b <;> rfl

@[simp] theorem requests_accept : Journal.requests (accept sink b).1 = [] := by
  unfold accept
  cases validate b <;> rfl

end

theorem uses_run? {fuel : Nat} {s : Settings} {sink : String} {x : Executable}
    {k : Journal} {q : Except RunError Value} (h : Host.run? fuel s sink x = some (k, q)) :
    k.uses = [] := by
  obtain ⟨e, -, he⟩ := Option.map_eq_some_iff.1 h
  obtain ⟨rfl, -⟩ := Prod.mk.inj he
  exact e.uses_events sink

/-- What becomes of bytes that are run directly: they are refused, or what they give runs
to an end. -/
inductive Executes (fuel : Nat) (s : Settings) (sink : String) (b : Binary) :
    Journal → Except EvalError Value → Prop
  | refused {message : String} : validate b = .error message →
      Executes fuel s sink b
        [.note (.rejected message), .report sink (.ofRejection message)]
        (.error (.compile .invalid))
  | ran {x : Executable} {e : Ending} : validate b = .ok x → x.run? s fuel = some e →
      Executes fuel s sink b (.note .validated :: e.events sink) (e.result.mapError .run)

theorem execute?_eq_some_iff (fuel : Nat) (s : Settings) (sink : String) (b : Binary)
    (j : Journal) (r : Except EvalError Value) :
    execute? fuel s sink b = some (j, r) ↔ Executes fuel s sink b j r := by
  constructor
  · intro h
    unfold execute? accept at h
    cases hv : validate b with
    | error message =>
        rw [hv] at h
        cases h
        exact .refused hv
    | ok x =>
        rw [hv] at h
        obtain ⟨⟨k, q⟩, hrun, hq⟩ := Option.map_eq_some_iff.1 h
        obtain ⟨e, hended, he⟩ := Option.map_eq_some_iff.1 hrun
        cases he
        cases hq
        exact .ran hv hended
  · intro h
    unfold execute? accept
    cases h with
    | refused hv => rw [hv]
    | ran hv hrun => simp [hv, Host.run?, hrun]

theorem execute?_eq_none_iff (fuel : Nat) (s : Settings) (sink : String) (b : Binary) :
    execute? fuel s sink b = none ↔ ∃ x, validate b = .ok x ∧ x.run? s fuel = none := by
  unfold execute? accept
  cases validate b with
  | error message => simp
  | ok x => simp [Host.run?]

end Host

end ProgramHost
