import Mathlib.Algebra.Order.Ring.Nat
import Mathlib.Data.List.Induction
import Mathlib.Tactic.Ring
import ProgramHost.Numeral.Radix
/-!
# Digits and numbers

The digits of a number denote it, and there is no zero in front of them unless the number
is zero. So the number of digits says between which powers of the base the number lies.
The texts of digits are read back digit by digit.
-/

namespace ProgramHost.Numeral.Radix

variable {b : Nat}

/-! ## The number that digits denote -/

theorem ofDigits_append (ds es : List (Fin b)) :
    ofDigits (ds ++ es) = ofDigits ds * b ^ es.length + ofDigits es := by
  induction es using List.reverseRecOn with
  | nil => simp
  | append_singleton es e ih =>
      rw [← List.append_assoc, ofDigits_append_singleton, ih, ofDigits_append_singleton,
        List.length_append, List.length_singleton, pow_succ]
      ring

theorem ofDigits_cons (d : Fin b) (ds : List (Fin b)) :
    ofDigits (d :: ds) = d.val * b ^ ds.length + ofDigits ds := by
  have hone : ofDigits [d] = d.val := by simp [ofDigits]
  rw [← List.singleton_append, ofDigits_append, hone]

theorem ofDigits_lt (ds : List (Fin b)) : ofDigits ds < b ^ ds.length := by
  induction ds with
  | nil => simp
  | cons d ds ih =>
      rw [ofDigits_cons, List.length_cons, pow_succ]
      have hd : d.val + 1 ≤ b := d.isLt
      calc d.val * b ^ ds.length + ofDigits ds
          < d.val * b ^ ds.length + b ^ ds.length := Nat.add_lt_add_left ih _
        _ = b ^ ds.length * (d.val + 1) := by ring
        _ ≤ b ^ ds.length * b := Nat.mul_le_mul_left _ hd

theorem ofDigits_replicate_zero (zero : Fin b) (hzero : zero.val = 0) (n : Nat) :
    ofDigits (List.replicate n zero) = 0 := by
  induction n with
  | zero => rfl
  | succ n ih => rw [List.replicate_succ, ofDigits_cons, hzero, ih, Nat.zero_mul]

/-! ## The digits of a number -/

theorem val_lastDigit (pos : 0 < b) (n : Nat) : (lastDigit pos n).val = n % b := rfl

theorem div_lt_two_pow (pos : 0 < b) (hb : 2 ≤ b) {fuel n : Nat} (hn : n < 2 ^ (fuel + 1)) :
    n / b < 2 ^ fuel := by
  rw [Nat.div_lt_iff_lt_mul pos]
  calc n < 2 ^ fuel * 2 := by rwa [← pow_succ]
    _ ≤ 2 ^ fuel * b := Nat.mul_le_mul_left _ hb

theorem ofDigits_digitsOnto (pos : 0 < b) (hb : 2 ≤ b) {fuel n : Nat} (hn : n < 2 ^ fuel)
    (acc : List (Fin b)) :
    ofDigits (digitsOnto pos fuel n acc) = n * b ^ acc.length + ofDigits acc := by
  induction fuel generalizing n acc with
  | zero =>
      have hzero : n = 0 := by simpa using hn
      rw [digitsOnto, hzero, Nat.zero_mul, Nat.zero_add]
  | succ fuel ih =>
      rw [digitsOnto]
      split
      · next hlt => rw [ofDigits_cons, val_lastDigit, Nat.mod_eq_of_lt hlt]
      · rw [ih (div_lt_two_pow pos hb hn), ofDigits_cons, val_lastDigit, List.length_cons,
          pow_succ]
        conv_rhs => rw [← Nat.div_add_mod n b]
        ring

theorem ofDigits_digits (pos : 0 < b) (hb : 2 ≤ b) (n : Nat) :
    ofDigits (digits pos n) = n := by
  rw [digits, ofDigits_digitsOnto pos hb Nat.lt_log2_self]
  simp

theorem exists_digitsOnto_eq_cons (pos : 0 < b) (hb : 2 ≤ b) {fuel n : Nat} (h : 0 < n)
    (hn : n < 2 ^ fuel) (acc : List (Fin b)) :
    ∃ d ds, digitsOnto pos fuel n acc = d :: ds ∧ d.val ≠ 0 := by
  induction fuel generalizing n acc with
  | zero => simp at hn; omega
  | succ fuel ih =>
      rw [digitsOnto]
      split
      · next hlt =>
          refine ⟨_, _, rfl, ?_⟩
          rw [val_lastDigit, Nat.mod_eq_of_lt hlt]
          exact Nat.ne_of_gt h
      · next hge =>
          exact ih (Nat.div_pos (Nat.le_of_not_lt hge) pos) (div_lt_two_pow pos hb hn) _

theorem exists_digits_eq_cons (pos : 0 < b) (hb : 2 ≤ b) {n : Nat} (h : 0 < n) :
    ∃ d ds, digits pos n = d :: ds ∧ d.val ≠ 0 :=
  exists_digitsOnto_eq_cons pos hb h Nat.lt_log2_self []

theorem digits_zero (pos : 0 < b) : digits pos 0 = [lastDigit pos 0] := by
  rw [digits, Nat.log2_zero, digitsOnto, if_pos pos]

theorem digits_ne_nil (pos : 0 < b) (hb : 2 ≤ b) (n : Nat) : digits pos n ≠ [] := by
  rcases Nat.eq_zero_or_pos n with rfl | h
  · simp [digits_zero]
  · obtain ⟨d, ds, hds, -⟩ := exists_digits_eq_cons pos hb h
    simp [hds]

theorem ofDigits_tens (n : Nat) : ofDigits (tens n) = n :=
  ofDigits_digits ten_pos (by decide) n

theorem tens_injective {m n : Nat} (h : tens m = tens n) : m = n := by
  rw [← ofDigits_tens m, h, ofDigits_tens]

theorem tens_ne_nil (n : Nat) : tens n ≠ [] :=
  digits_ne_nil ten_pos (by decide) n

theorem exists_tens_eq_cons {n : Nat} (h : 0 < n) : ∃ d ds, tens n = d :: ds ∧ d.val ≠ 0 :=
  exists_digits_eq_cons ten_pos (by decide) h

theorem lt_pow_length_tens (n : Nat) : n < 10 ^ (tens n).length := by
  have h := ofDigits_lt (tens n)
  rwa [ofDigits_tens] at h

theorem pow_length_tens_le {n : Nat} (h : 0 < n) : 10 ^ ((tens n).length - 1) ≤ n := by
  obtain ⟨d, ds, hds, hd⟩ := exists_tens_eq_cons h
  have hn := ofDigits_tens n
  rw [hds, ofDigits_cons] at hn
  rw [hds, List.length_cons, Nat.add_sub_cancel]
  calc 10 ^ ds.length ≤ d.val * 10 ^ ds.length :=
        Nat.le_mul_of_pos_left _ (Nat.pos_of_ne_zero hd)
    _ ≤ n := by omega

/-! ## Texts of digits -/

theorem digit?_digitChar (d : Fin 10) : digit? (digitChar d) = some d := by
  revert d
  decide

/-- A text of digits is read back by any reader that reads each digit back. -/
theorem mapM_text {read? : Char → Option (Fin b)} (h : ∀ d, read? (digitChar d) = some d)
    (ds : List (Fin b)) : (text ds).mapM read? = some ds := by
  induction ds with
  | nil => rfl
  | cons d ds ih =>
      have htext : text (d :: ds) = digitChar d :: text ds := rfl
      rw [htext, List.mapM_cons, h, ih]
      rfl

def spanDigits (read? : Char → Option (Fin b)) : List Char → List (Fin b) × List Char
  | [] => ([], [])
  | c :: cs =>
      match read? c with
      | some d => (d :: (spanDigits read? cs).1, (spanDigits read? cs).2)
      | none => ([], c :: cs)

theorem spanDigits_text {read? : Char → Option (Fin b)}
    (h : ∀ d, read? (digitChar d) = some d) (ds : List (Fin b)) {rest : List Char}
    (hrest : ∀ c ∈ rest.head?, read? c = none) :
    spanDigits read? (text ds ++ rest) = (ds, rest) := by
  induction ds with
  | nil =>
      cases rest with
      | nil => rfl
      | cons c rest =>
          have hc : read? c = none := hrest c rfl
          rw [text_nil, List.nil_append, spanDigits, hc]
  | cons d ds ih =>
      have htext : text (d :: ds) = digitChar d :: text ds := rfl
      rw [htext, List.cons_append, spanDigits, h, ih]

/-! ## Hexadecimal digits -/

def hexDigit? (c : Char) : Option (Fin 16) :=
  (List.finRange 16).find? fun d => c = digitChar d || c = (digitChar d).toUpper

theorem hexDigit?_digitChar (d : Fin 16) : hexDigit? (digitChar d) = some d := by
  revert d
  decide

theorem mapM_hexDigit?_text (ds : List (Fin 16)) : (text ds).mapM hexDigit? = some ds :=
  mapM_text hexDigit?_digitChar ds

end ProgramHost.Numeral.Radix
