import ProgramHost.Proofs.Program.Run
/-!
# More fuel

The fuel bounds the length of an execution and does nothing else. A completion
approximates another one if it is the same or was left unfinished. Sequencing keeps
the approximation, so an execution approximates every execution with more fuel, and
there is only one way in which a run can end.
-/

namespace ProgramHost.Program

/-- A completion is the other one, or it was left unfinished. With more fuel an execution only
ever gains: this is the order in which it does. -/
def Completion.Approximates (c c' : Completion) : Prop :=
  c = .unfinished ∨ c = c'

namespace Completion.Approximates

variable {c c' : Completion}

theorem refl (c : Completion) : c.Approximates c :=
  .inr rfl

theorem andThen {k k' : Frame → Completion} (hc : c.Approximates c')
    (hk : ∀ f, (k f).Approximates (k' f)) : (c.andThen k).Approximates (c'.andThen k') := by
  rcases hc with rfl | rfl
  · exact .inl rfl
  · cases c with
    | next f => exact hk f
    | left f => exact refl _
    | halted h => exact refl _
    | unfinished => exact refl _

theorem afterCall {k k' : Memory → Completion} (hc : c.Approximates c')
    (hk : ∀ m, (k m).Approximates (k' m)) : (c.afterCall k).Approximates (c'.afterCall k') := by
  rcases hc with rfl | rfl
  · exact .inl rfl
  · cases c with
    | next f => exact hk f.memory
    | left f => exact hk f.memory
    | halted h => exact refl _
    | unfinished => exact refl _

theorem eq_of_ne_unfinished (h : c.Approximates c') (hc : c ≠ .unfinished) : c' = c :=
  (h.resolve_left hc).symm

end Completion.Approximates

/-- An execution approximates every execution with more fuel. -/
theorem exec_approximates (code : Nat → List Stmt) {fuel fuel' : Nat} (h : fuel ≤ fuel')
    (depth : Nat) (ss : List Stmt) (f : Frame) :
    (exec code fuel depth ss f).Approximates (exec code fuel' depth ss f) := by
  induction fuel generalizing fuel' depth ss f with
  | zero => exact .inl rfl
  | succ fuel ih =>
      obtain ⟨more, rfl⟩ := Nat.exists_eq_add_of_le' (Nat.le_of_add_left_le h)
      have hle : fuel ≤ more := Nat.le_of_succ_le_succ h
      cases ss with
      | nil => exact .refl _
      | cons s rest =>
          cases s with
          | act a =>
              simp only [exec]
              cases a.run f with
              | ok f' => exact ih hle depth rest f'
              | error e => exact .refl _
          | call i =>
              cases depth with
              | zero => exact .refl _
              | succ below =>
                  exact (ih hle below (code i) _).afterCall fun m => ih hle (below + 1) rest _
          | branch x yes no =>
              simp only [exec]
              cases f.word x with
              | ok p => exact (ih hle depth _ p.2).andThen fun f' => ih hle depth rest f'
              | error e => exact .refl _
          | loop x body =>
              simp only [exec]
              cases f.word x with
              | ok p =>
                  by_cases hp : p.1 = 0
                  · simp only [if_pos hp]
                    exact ih hle depth rest p.2
                  · simp only [if_neg hp]
                    exact (ih hle depth body p.2).andThen fun f' =>
                      ih hle depth (.loop x body :: rest) f'
              | error e => exact .refl _
          | leave => exact .refl _

theorem Completion.exists_of_andThen_eq_next {c : Completion} {k : Frame → Completion}
    {f : Frame} (h : c.andThen k = .next f) : ∃ f₁, c = .next f₁ ∧ k f₁ = .next f := by
  cases c with
  | next f₁ => exact ⟨f₁, rfl, h⟩
  | left f₁ => cases h
  | halted e => cases h
  | unfinished => cases h

theorem Completion.exists_of_afterCall_eq_next {c : Completion} {k : Memory → Completion}
    {f : Frame} (h : c.afterCall k = .next f) :
    ∃ m, c ≠ .unfinished ∧ (∀ k', c.afterCall k' = k' m) ∧ k m = .next f := by
  cases c with
  | next f₁ => exact ⟨f₁.memory, by simp, fun _ => rfl, h⟩
  | left f₁ => exact ⟨f₁.memory, by simp, fun _ => rfl, h⟩
  | halted e => cases h
  | unfinished => cases h

theorem exec_append {code : Nat → List Stmt} {fuel fuel' depth : Nat} {ss ts : List Stmt}
    {f f' : Frame} (h : exec code fuel depth ss f = .next f')
    (hts : exec code fuel' depth ts f' ≠ .unfinished) :
    exec code (fuel + fuel') depth (ss ++ ts) f = exec code fuel' depth ts f' := by
  -- By induction on the fuel of the first part. What is nested in it, such as a call or the
  -- turn of a loop, has finished there, so it is the same with the fuel of both.
  induction fuel generalizing ss f with
  | zero => cases h
  | succ fuel ih =>
      have hle : fuel ≤ fuel + fuel' := Nat.le_add_right fuel fuel'
      rw [Nat.add_right_comm]
      cases ss with
      | nil =>
          cases h
          have hmore := exec_approximates code (Nat.le_add_left fuel' (fuel + 1)) depth ts f'
          rw [Nat.add_right_comm] at hmore
          exact hmore.eq_of_ne_unfinished hts
      | cons s rest =>
          cases s with
          | act a =>
              simp only [exec, List.cons_append] at h ⊢
              cases ha : a.run f with
              | ok f₁ =>
                  rw [ha] at h
                  exact ih h
              | error e =>
                  rw [ha] at h
                  cases h
          | call i =>
              cases depth with
              | zero => cases h
              | succ below =>
                  simp only [exec, List.cons_append] at h ⊢
                  obtain ⟨m, hcall, hafter, hrest⟩ := Completion.exists_of_afterCall_eq_next h
                  have hmore := exec_approximates code hle below (code i) ⟨.zero, f.memory⟩
                  rw [hmore.eq_of_ne_unfinished hcall, hafter]
                  exact ih hrest
          | branch x yes no =>
              simp only [exec, List.cons_append] at h ⊢
              cases hx : f.word x with
              | error e =>
                  rw [hx] at h
                  cases h
              | ok p =>
                  rw [hx] at h
                  obtain ⟨f₁, hbranch, hrest⟩ := Completion.exists_of_andThen_eq_next h
                  have hmore := exec_approximates code hle depth (if p.1 = 0 then no else yes) p.2
                  rw [hbranch] at hmore
                  simp only
                  rw [hmore.eq_of_ne_unfinished (by simp)]
                  exact ih hrest
          | loop x body =>
              simp only [exec, List.cons_append] at h ⊢
              cases hx : f.word x with
              | error e =>
                  rw [hx] at h
                  cases h
              | ok p =>
                  rw [hx] at h
                  by_cases hp : p.1 = 0
                  · simp only [if_pos hp] at h ⊢
                    exact ih h
                  · simp only [if_neg hp] at h ⊢
                    obtain ⟨f₁, hbody, hrest⟩ := Completion.exists_of_andThen_eq_next h
                    have hmore := exec_approximates code hle depth body p.2
                    rw [hbody] at hmore
                    rw [hmore.eq_of_ne_unfinished (by simp)]
                    exact ih hrest
          | leave => cases h

namespace Executable

variable {x : Executable} {s : Settings} {fuel fuel' : Nat}

theorem invoke_mono (h : fuel ≤ fuel') {i : Nat} {m : Memory} {r : Except Stop Memory}
    (hr : x.invoke fuel i m = some r) : x.invoke fuel' i m = some r := by
  have hexec := exec_approximates x.definition.body h stackDepth (x.definition.body i) ⟨.zero, m⟩
  unfold invoke at hr ⊢
  rcases hexec with hexec | hexec
  · rw [hexec] at hr
    cases hr
  · rw [← hexec]
    exact hr

theorem instantiate_mono (h : fuel ≤ fuel') {r : Except Stop Memory}
    (hr : x.instantiate s fuel = some r) : x.instantiate s fuel' = some r := by
  unfold instantiate runStart at hr ⊢
  cases hlink : x.link s with
  | error e =>
      rw [hlink] at hr
      exact hr
  | ok m =>
      rw [hlink] at hr
      cases hstart : x.definition.start with
      | none =>
          rw [hstart] at hr
          exact hr
      | some i =>
          rw [hstart] at hr
          exact invoke_mono h hr

theorem Ends.mono (h : fuel ≤ fuel') {e : Ending} (he : x.Ends s fuel e) :
    x.Ends s fuel' e := by
  cases he with
  | stopped hstart => exact .stopped (instantiate_mono h hstart)
  | unentered hstart hentry => exact .unentered (instantiate_mono h hstart) hentry
  | halted hstart hentry hcall =>
      exact .halted (instantiate_mono h hstart) hentry (invoke_mono h hcall)
  | returned hstart hentry hcall =>
      exact .returned (instantiate_mono h hstart) hentry (invoke_mono h hcall)

/-- A run ends in one way, however much fuel it is given. -/
theorem Ends.unique {e e' : Ending} (he : x.Ends s fuel e) (he' : x.Ends s fuel' e') :
    e = e' := by
  have hmost := he.mono (Nat.le_max_left fuel fuel')
  have hmost' := he'.mono (Nat.le_max_right fuel fuel')
  rw [← run?_eq_some_iff] at hmost hmost'
  exact Option.some.inj (hmost.symm.trans hmost')

end Executable

end ProgramHost.Program
