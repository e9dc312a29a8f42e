import ProgramHost.Program.Run
/-!
# The stages of a run

`Ends x s fuel e` has one case for each stage that can end a run: the instantiation
that stops, the entry point that is not found, the call of it that stops, and the
memory that is read when it has returned. It is the run, case by case, so what is
true of the end of a run is proved by the cases of `Ends`.
-/

namespace ProgramHost.Program.Executable

theorem exists_link_of_instantiate {x : Executable} {s : Settings} {fuel : Nat} {m : Memory}
    (h : x.instantiate s fuel = some (.ok m)) :
    ∃ m₀, x.link s = .ok m₀ ∧ x.runStart fuel m₀ = some (.ok m) := by
  unfold instantiate at h
  cases hlink : x.link s with
  | error e =>
      rw [hlink] at h
      cases h
  | ok m₀ =>
      rw [hlink] at h
      exact ⟨m₀, rfl, h⟩

/-- How a run ends, by the stage that ends it. Each case says what the stages before it gave, so a
run is opened once, here, and later proofs go by the stage. -/
inductive Ends (x : Executable) (s : Settings) (fuel : Nat) : Ending → Prop
  | stopped {e : Stop} : x.instantiate s fuel = some (.error e) → Ends x s fuel (Stop.ending e)
  | unentered {m : Memory} {e : Failure} :
      x.instantiate s fuel = some (.ok m) → x.entry s.entryPoint = .error e →
        Ends x s fuel (.failure e)
  | halted {m : Memory} {i : Nat} {e : Stop} :
      x.instantiate s fuel = some (.ok m) → x.entry s.entryPoint = .ok i →
        x.invoke fuel i m = some (.error e) → Ends x s fuel (Stop.ending e)
  | returned {m m' : Memory} {i : Nat} :
      x.instantiate s fuel = some (.ok m) → x.entry s.entryPoint = .ok i →
        x.invoke fuel i m = some (.ok m') → Ends x s fuel (x.finish s m')

theorem run?_eq_some_iff (x : Executable) (s : Settings) (fuel : Nat) (e : Ending) :
    x.run? s fuel = some e ↔ x.Ends s fuel e := by
  constructor
  · intro h
    unfold run? callEntry at h
    cases hstart : x.instantiate s fuel with
    | none =>
        rw [hstart] at h
        cases h
    | some stage =>
        rw [hstart] at h
        cases stage with
        | error stop =>
            cases h
            exact .stopped hstart
        | ok m =>
            cases hentry : x.entry s.entryPoint with
            | error failure =>
                simp only [hentry] at h
                cases h
                exact .unentered hstart hentry
            | ok i =>
                simp only [hentry] at h
                cases hcall : x.invoke fuel i m with
                | none =>
                    rw [hcall] at h
                    cases h
                | some stage =>
                    rw [hcall] at h
                    cases stage with
                    | error stop =>
                        cases h
                        exact .halted hstart hentry hcall
                    | ok m' =>
                        cases h
                        exact .returned hstart hentry hcall
  · intro h
    cases h with
    | stopped hstart => rw [run?, hstart]
    | unentered hstart hentry => simp only [run?, callEntry, hstart, hentry, Stop.ending]
    | halted hstart hentry hcall => simp only [run?, callEntry, hstart, hentry, hcall]
    | returned hstart hentry hcall => simp only [run?, callEntry, hstart, hentry, hcall]

end ProgramHost.Program.Executable
