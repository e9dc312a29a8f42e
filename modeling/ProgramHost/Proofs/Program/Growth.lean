import ProgramHost.Proofs.Memory.Growth
import ProgramHost.Proofs.Program.Run
/-!
# Memories of a run

An expression can make the memory grow and changes no byte of it; a statement can do
both. So along a run, from the memory that is declared to the one that the entry point
leaves, each memory has grown from the one before, and all of them fit.
-/

namespace ProgramHost.Program

theorem exists_of_bind_eq_ok {ε α β : Type} {r : Except ε α} {k : α → Except ε β} {b : β}
    (h : r >>= k = .ok b) : ∃ a, r = .ok a ∧ k a = .ok b := by
  cases r with
  | ok a => exact ⟨a, rfl, h⟩
  | error e => cases h

theorem bind_eq_of_eq_ok {ε α β : Type} {r : Except ε α} {a : α} (h : r = .ok a)
    (k : α → Except ε β) : r >>= k = k a := by
  rw [h]
  rfl

theorem growth_extends (m : Memory) (n : UInt32) : m.Extends (growth m n).2 := by
  unfold growth
  cases h : m.grow? n.toNat with
  | some m' => exact .of_grow? h
  | none => exact .refl m

theorem Expr.eval_extends {s : Slots} {x : Expr} {m m' : Memory} {v : UInt32}
    (h : x.eval s m = .ok (v, m')) : m.Extends m' := by
  induction x generalizing m m' v with
  | const x =>
      cases h
      exact .refl m
  | slot i =>
      cases h
      exact .refl m
  | load a ih =>
      obtain ⟨p, ha, h⟩ := exists_of_bind_eq_ok h
      obtain ⟨n, -, h⟩ := exists_of_bind_eq_ok h
      cases h
      exact ih ha
  | load8 a ih =>
      obtain ⟨p, ha, h⟩ := exists_of_bind_eq_ok h
      obtain ⟨n, -, h⟩ := exists_of_bind_eq_ok h
      cases h
      exact ih ha
  | size =>
      cases h
      exact .refl m
  | grow n ih =>
      obtain ⟨p, hn, h⟩ := exists_of_bind_eq_ok h
      have hgrowth := growth_extends p.2 p.1
      rw [Except.ok.inj h] at hgrowth
      exact (ih hn).trans hgrowth
  | binary op x y ihx ihy =>
      obtain ⟨p, hx, h⟩ := exists_of_bind_eq_ok h
      obtain ⟨q, hy, h⟩ := exists_of_bind_eq_ok h
      obtain ⟨w, -, h⟩ := exists_of_bind_eq_ok h
      cases h
      exact (ihx hx).trans (ihy hy)

theorem RealExpr.eval_extends {s : Slots} {x : RealExpr} {m m' : Memory} {v : UInt64}
    (h : x.eval s m = .ok (v, m')) : m.Extends m' := by
  induction x generalizing m m' v with
  | const x =>
      cases h
      exact .refl m
  | ofSigned x =>
      obtain ⟨p, hx, h⟩ := exists_of_bind_eq_ok h
      cases h
      exact Expr.eval_extends hx
  | ofUnsigned x =>
      obtain ⟨p, hx, h⟩ := exists_of_bind_eq_ok h
      cases h
      exact Expr.eval_extends hx
  | load a =>
      obtain ⟨p, ha, h⟩ := exists_of_bind_eq_ok h
      obtain ⟨n, -, h⟩ := exists_of_bind_eq_ok h
      cases h
      exact Expr.eval_extends ha
  | binary op x y ihx ihy =>
      obtain ⟨p, hx, h⟩ := exists_of_bind_eq_ok h
      obtain ⟨q, hy, h⟩ := exists_of_bind_eq_ok h
      cases h
      exact (ihx hx).trans (ihy hy)

namespace Frame

variable {f f' : Frame}

theorem word_extends {x : Expr} {v : UInt32} (h : f.word x = .ok (v, f')) :
    f.memory.Extends f'.memory := by
  unfold word at h
  split at h
  · next hx =>
      cases h
      exact Expr.eval_extends hx
  · cases h

theorem real_extends {x : RealExpr} {v : UInt64} (h : f.real x = .ok (v, f')) :
    f.memory.Extends f'.memory := by
  unfold real at h
  split at h
  · next hx =>
      cases h
      exact RealExpr.eval_extends hx
  · cases h

theorem put_grows {f₁ : Frame} {o : Option Memory} (hext : f.memory.Extends f₁.memory)
    (h : f₁.put o = .ok f') (ho : ∀ m, o = some m → f₁.memory.Grows m) :
    f.memory.Grows f'.memory := by
  cases o with
  | some m =>
      cases h
      exact hext.toGrows.trans (ho m rfl)
  | none => cases h

end Frame

theorem Action.run_grows {f f' : Frame} {a : Action} (h : a.run f = .ok f') :
    f.memory.Grows f'.memory := by
  cases a with
  | store a x =>
      obtain ⟨p, ha, h⟩ := exists_of_bind_eq_ok h
      obtain ⟨q, hx, h⟩ := exists_of_bind_eq_ok h
      have hext := (Frame.word_extends ha).trans (Frame.word_extends hx)
      exact Frame.put_grows hext h fun m hm => .of_store? hm
  | store8 a x =>
      obtain ⟨p, ha, h⟩ := exists_of_bind_eq_ok h
      obtain ⟨q, hx, h⟩ := exists_of_bind_eq_ok h
      have hext := (Frame.word_extends ha).trans (Frame.word_extends hx)
      exact Frame.put_grows hext h fun m hm => .of_store? hm
  | storeReal a x =>
      obtain ⟨p, ha, h⟩ := exists_of_bind_eq_ok h
      obtain ⟨q, hx, h⟩ := exists_of_bind_eq_ok h
      have hext := (Frame.word_extends ha).trans (Frame.real_extends hx)
      exact Frame.put_grows hext h fun m hm => .of_store? hm
  | fill a b n =>
      obtain ⟨p, ha, h⟩ := exists_of_bind_eq_ok h
      obtain ⟨q, hb, h⟩ := exists_of_bind_eq_ok h
      obtain ⟨r, hn, h⟩ := exists_of_bind_eq_ok h
      have hwords := (Frame.word_extends ha).trans (Frame.word_extends hb)
      have hext := hwords.trans (Frame.word_extends hn)
      exact Frame.put_grows hext h fun m hm => .of_fill? hm
  | copy a b n =>
      obtain ⟨p, ha, h⟩ := exists_of_bind_eq_ok h
      obtain ⟨q, hb, h⟩ := exists_of_bind_eq_ok h
      obtain ⟨r, hn, h⟩ := exists_of_bind_eq_ok h
      have hwords := (Frame.word_extends ha).trans (Frame.word_extends hb)
      have hext := hwords.trans (Frame.word_extends hn)
      exact Frame.put_grows hext h fun m hm => .of_copy? hm
  | set i x =>
      obtain ⟨p, hx, h⟩ := exists_of_bind_eq_ok h
      cases h
      exact (Frame.word_extends hx).toGrows
  | drop x =>
      obtain ⟨p, hx, h⟩ := exists_of_bind_eq_ok h
      cases h
      exact (Frame.word_extends hx).toGrows
  | fault a b c d e =>
      obtain ⟨p, -, h⟩ := exists_of_bind_eq_ok h
      obtain ⟨p, -, h⟩ := exists_of_bind_eq_ok h
      obtain ⟨p, -, h⟩ := exists_of_bind_eq_ok h
      obtain ⟨p, -, h⟩ := exists_of_bind_eq_ok h
      obtain ⟨p, -, h⟩ := exists_of_bind_eq_ok h
      cases h
  | unreachable => cases h

namespace Completion

/-- Where an execution goes on, its memory has grown from `m`. Nothing is claimed of an execution
that was halted, whose memory is lost, or left unfinished. -/
def GrowsFrom (m : Memory) : Completion → Prop
  | .next f => m.Grows f.memory
  | .left f => m.Grows f.memory
  | .halted _ => True
  | .unfinished => True

namespace GrowsFrom

variable {m m' : Memory} {c : Completion}

theorem of_grows (h : m.Grows m') (hc : c.GrowsFrom m') : c.GrowsFrom m := by
  cases c with
  | next f => exact h.trans hc
  | left f => exact h.trans hc
  | halted h => trivial
  | unfinished => trivial

theorem andThen {k : Frame → Completion} (hc : c.GrowsFrom m)
    (hk : ∀ f, (k f).GrowsFrom f.memory) : (c.andThen k).GrowsFrom m := by
  cases c with
  | next f => exact (hk f).of_grows hc
  | left f => exact hc
  | halted h => trivial
  | unfinished => trivial

theorem afterCall {k : Memory → Completion} (hc : c.GrowsFrom m)
    (hk : ∀ m', (k m').GrowsFrom m') : (c.afterCall k).GrowsFrom m := by
  cases c with
  | next f => exact (hk f.memory).of_grows hc
  | left f => exact (hk f.memory).of_grows hc
  | halted h => trivial
  | unfinished => trivial

end GrowsFrom

end Completion

/-- The memory grows along an execution, through calls, branches and loops. -/
theorem exec_growsFrom (code : Nat → List Stmt) (fuel depth : Nat) (ss : List Stmt)
    (f : Frame) : (exec code fuel depth ss f).GrowsFrom f.memory := by
  -- What follows a call, a branch or a turn starts from the memory that was left there,
  -- so the memory at hand is generalized along with the statements.
  induction fuel generalizing depth ss f with
  | zero => trivial
  | succ fuel ih =>
      cases ss with
      | nil => exact .refl f.memory
      | cons s rest =>
          cases s with
          | act a =>
              simp only [exec]
              cases ha : a.run f with
              | ok f' => exact (ih depth rest f').of_grows (Action.run_grows ha)
              | error e => trivial
          | call i =>
              cases depth with
              | zero => trivial
              | succ below =>
                  exact (ih below (code i) _).afterCall fun m => ih (below + 1) rest ⟨f.slots, m⟩
          | branch x yes no =>
              simp only [exec]
              cases hx : f.word x with
              | ok p =>
                  have hbranch := ih depth (if p.1 = 0 then no else yes) p.2
                  exact (hbranch.andThen (ih depth rest)).of_grows (Frame.word_extends hx).toGrows
              | error e => trivial
          | loop x body =>
              simp only [exec]
              cases hx : f.word x with
              | ok p =>
                  have hgrows := (Frame.word_extends hx).toGrows
                  by_cases hp : p.1 = 0
                  · simp only [if_pos hp]
                    exact (ih depth rest p.2).of_grows hgrows
                  · simp only [if_neg hp]
                    have hturn := (ih depth body p.2).andThen (ih depth (.loop x body :: rest))
                    exact hturn.of_grows hgrows
              | error e => trivial
          | leave => exact .refl f.memory

namespace Executable

variable {x : Executable} {s : Settings} {fuel : Nat} {m m' : Memory}

theorem fits_fresh {l : Limits} (h : l.Valid) :
    (Memory.fresh l.pages (l.most.getD Memory.mostPages)).Fits := by
  obtain ⟨hpages, hmost⟩ := h
  refine ⟨hpages, ?_⟩
  cases hl : l.most with
  | none => exact Nat.le_refl _
  | some n => exact (hmost n hl).2

theorem initialMemory_fits (x : Executable) : (initialMemory x.definition).Fits := by
  unfold initialMemory
  cases h : x.definition.memory with
  | none => exact ⟨Nat.zero_le _, Nat.zero_le _⟩
  | some l => exact fits_fresh (x.valid.limits_valid l h)

theorem layOut_grows {gs : List Segment} (h : layOut gs m = .ok m') : m.Grows m' := by
  induction gs generalizing m with
  | nil =>
      cases h
      exact .refl _
  | cons g gs ih =>
      rw [layOut] at h
      split at h
      · next hwrite => exact (Memory.Grows.of_write? hwrite).trans (ih h)
      · cases h

theorem link_grows (h : x.link s = .ok m) : (initialMemory x.definition).Grows m := by
  obtain ⟨-, -, h⟩ := exists_of_bind_eq_ok h
  obtain ⟨-, -, h⟩ := exists_of_bind_eq_ok h
  exact layOut_grows h

theorem invoke_grows {i : Nat} (h : x.invoke fuel i m = some (.ok m')) : m.Grows m' := by
  have hexec := exec_growsFrom x.definition.body fuel stackDepth (x.definition.body i) ⟨.zero, m⟩
  unfold invoke at h
  split at h
  · next hnext =>
      cases h
      rw [hnext] at hexec
      exact hexec
  · next hleft =>
      cases h
      rw [hleft] at hexec
      exact hexec
  · cases h
  · cases h
  · cases h

theorem instantiate_grows (h : x.instantiate s fuel = some (.ok m)) :
    (initialMemory x.definition).Grows m := by
  obtain ⟨m₀, hlink, h⟩ := exists_link_of_instantiate h
  unfold runStart at h
  cases hstart : x.definition.start with
  | none =>
      rw [hstart] at h
      cases h
      exact link_grows hlink
  | some i =>
      rw [hstart] at h
      exact (link_grows hlink).trans (invoke_grows h)

end Executable

end ProgramHost.Program
