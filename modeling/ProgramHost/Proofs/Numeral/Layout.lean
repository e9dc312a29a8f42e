import Mathlib.Algebra.Order.Field.Power
import Mathlib.Algebra.Order.Field.Rat
import Mathlib.Tactic.FieldSimp
import Mathlib.Tactic.Linarith
import ProgramHost.Numeral.Layout
import ProgramHost.Proofs.Numeral.Literal
/-!
# What a literal denotes

A literal denotes a rational number, with the sign apart so that the two zeros differ.
The layouts of a scientific decimal all denote the number that the decimal is: zeros are
only put where they do not count, and digits on both sides of the point or an exponent
stand for the same powers of ten.
-/

namespace ProgramHost.Numeral

open Radix

/-- The number that a literal denotes, without its sign. -/
def magnitude (n : Numeral) : ℚ :=
  ofDigits (n.whole ++ n.fraction) * 10 ^ (n.exponent.getD 0 - n.fraction.length)

theorem ofDigits_append_zeros (ds : List Digit) (n : Nat) :
    ofDigits (ds ++ List.replicate n Digit.zero) = ofDigits ds * 10 ^ n := by
  rw [ofDigits_append, ofDigits_replicate_zero _ rfl, List.length_replicate, Nat.add_zero]

theorem ofDigits_zeros_append (n : Nat) (ds : List Digit) :
    ofDigits (List.replicate n Digit.zero ++ ds) = ofDigits ds := by
  rw [ofDigits_append, ofDigits_replicate_zero _ rfl, Nat.zero_mul, Nat.zero_add]

namespace Scientific

def magnitude (s : Scientific) : ℚ :=
  ofDigits s.digits * 10 ^ (s.exponent + 1 - s.digits.length)

/-- The decimal is zero, or its first digit is not. -/
inductive Proper : Scientific → Prop
  | zero : Proper ⟨[.zero], 0⟩
  | nonzero {d : Digit} {ds : List Digit} {e : Int} : d.val ≠ 0 → Proper ⟨d :: ds, e⟩

variable {s : Scientific}

theorem Proper.digits_ne_nil (h : s.Proper) : s.digits ≠ [] := by
  cases h <;> exact List.cons_ne_nil _ _

theorem magnitude_split (s : Scientific) :
    (ofDigits (s.split.1 ++ s.split.2) : ℚ) * 10 ^ (-(s.split.2.length : Int)) =
      s.magnitude := by
  obtain ⟨ds, e⟩ := s
  simp only [split, magnitude]
  split
  · next hneg =>
      have hdigits : ofDigits ([Digit.zero] ++
          (List.replicate (-e - 1).toNat Digit.zero ++ ds)) = ofDigits ds := by
        rw [← List.append_assoc, ← List.replicate_one, ← List.replicate_add,
          ofDigits_zeros_append]
      rw [hdigits, List.length_append, List.length_replicate]
      congr 2
      push_cast
      omega
  · next hge =>
      dsimp only
      rcases Nat.le_total ds.length (e.toNat + 1) with hle | hlt
      · rw [List.take_of_length_le hle, List.drop_of_length_le hle, List.append_nil,
          ofDigits_append_zeros, List.length_nil, Int.natCast_zero, neg_zero, zpow_zero, mul_one]
        push_cast
        rw [← zpow_natCast]
        congr 2
        omega
      · have hnone : e.toNat + 1 - ds.length = 0 := by omega
        rw [hnone, List.replicate_zero, List.append_nil, List.take_append_drop,
          List.length_drop]
        congr 2
        omega

theorem magnitude_positional (s : Scientific) (negative alwaysFraction : Bool) :
    (s.positional negative alwaysFraction).magnitude = s.magnitude := by
  rw [← magnitude_split]
  unfold positional Numeral.magnitude
  dsimp only
  split
  · next hempty =>
      have hnil : s.split.2 = [] := by
        rw [Bool.and_eq_true, List.isEmpty_iff] at hempty
        exact hempty.2
      rw [hnil, List.append_nil, ← List.replicate_one, ofDigits_append_zeros]
      simp
  · simp

theorem magnitude_exponential (h : s.digits ≠ []) (negative : Bool) :
    (s.exponential negative).magnitude = s.magnitude := by
  have hpos : 0 < s.digits.length := List.length_pos_iff.2 h
  simp only [exponential, Numeral.magnitude, magnitude, List.take_append_drop,
    List.length_drop, Option.getD_some]
  congr 2
  omega

/-- Whatever the layout, the literal of a decimal denotes it. -/
theorem magnitude_numeral (h : s.Proper) (l : Layout) (negative : Bool) :
    (s.numeral l negative).magnitude = s.magnitude := by
  unfold numeral
  split
  · exact magnitude_positional s negative l.alwaysFraction
  · exact magnitude_exponential h.digits_ne_nil negative

theorem negative_numeral (s : Scientific) (l : Layout) (negative : Bool) :
    (s.numeral l negative).negative = negative := by
  unfold numeral
  split <;> rfl

theorem exponent_numeral_eq_none_iff (s : Scientific) (l : Layout) (negative : Bool) :
    (s.numeral l negative).exponent = none ↔ l.isPositional s.exponent = true := by
  unfold numeral
  split
  · next h => exact iff_of_true rfl h
  · next h => exact iff_of_false (by simp [exponential]) h

theorem isWhole_of_head {d : Digit} (hd : d.val ≠ 0) (ds : List Digit) :
    isWhole (d :: ds) = true := by
  cases ds with
  | nil => rfl
  | cons e es => exact bne_iff_ne.2 hd

theorem isWhole_split (h : s.Proper) : isWhole s.split.1 = true := by
  cases h with
  | zero => rfl
  | nonzero hd =>
      unfold split
      split
      · rfl
      · exact isWhole_of_head hd _

theorem proper_numeral (h : s.Proper) (l : Layout) (negative : Bool) :
    (s.numeral l negative).Proper := by
  unfold numeral Numeral.Proper
  split
  · exact isWhole_split h
  · cases h with
    | zero => rfl
    | nonzero hd => rfl

/-- The exponent of a decimal that is not zero says between which powers of ten it lies. -/
theorem zpow_exponent_le {d : Digit} {ds : List Digit} {e : Int} (hd : d.val ≠ 0) :
    (10 : ℚ) ^ e ≤ magnitude ⟨d :: ds, e⟩ ∧ magnitude ⟨d :: ds, e⟩ < 10 ^ (e + 1) := by
  have hten : (10 : ℚ) ≠ 0 := by norm_num
  have hlow : 10 ^ ds.length ≤ ofDigits (d :: ds) := by
    rw [ofDigits_cons]
    calc 10 ^ ds.length ≤ d.val * 10 ^ ds.length :=
          Nat.le_mul_of_pos_left _ (Nat.pos_of_ne_zero hd)
      _ ≤ _ := Nat.le_add_right _ _
  have hhigh := ofDigits_lt (d :: ds)
  have hscale : (0 : ℚ) < 10 ^ (e - ds.length) := by positivity
  have hexp : e + 1 - ((d :: ds).length : Int) = e - ds.length := by
    rw [List.length_cons]
    push_cast
    ring
  unfold magnitude
  simp only [hexp]
  constructor
  · calc (10 : ℚ) ^ e = ((10 ^ ds.length : Nat) : ℚ) * 10 ^ (e - ds.length) := by
          push_cast
          rw [← zpow_natCast, ← zpow_add₀ hten]
          congr 1
          ring
      _ ≤ _ := mul_le_mul_of_nonneg_right (by exact_mod_cast hlow) hscale.le
  · calc _ < ((10 ^ (d :: ds).length : Nat) : ℚ) * 10 ^ (e - ds.length) :=
          mul_lt_mul_of_pos_right (by exact_mod_cast hhigh) hscale
      _ = 10 ^ (e + 1) := by
          push_cast
          rw [← zpow_natCast, ← zpow_add₀ hten, List.length_cons]
          congr 1
          push_cast
          ring

end Scientific

end ProgramHost.Numeral
