import Mathlib.Algebra.Order.Group.Unbundled.Abs
import Mathlib.Order.Monotone.Basic
import ProgramHost.Numeral.Binary
import ProgramHost.Proofs.Numeral.Shortest
/-!
# Rounding to a format

`f.Rounds negative r bits` says that the number `r`, with its sign apart, rounds to the
datum of the bits: no finite datum is nearer, and of two that are equally near the even one
is taken. A number in the middle between the greatest finite datum and the next power of two,
or above it, is not rounded to a finite datum.

The bit patterns without a sign are in the order of the numbers they stand for, and from
each one to the next the number grows by a unit in the last place. So the bounds of a datum
are the middles between it and its neighbours, and a number between the bounds rounds to the
datum and to no other.
-/

namespace ProgramHost.Numeral

theorem Dyadic.upper_eq (x : Dyadic) : x.upper = x.toRat + 2 * x.quarter := by
  rw [toRat_eq, upper]
  push_cast
  ring

namespace Format

/-- The middle between the greatest finite datum and the next power of two. -/
def overflow (f : Format) : ℚ := (2 * f.fractions - 1 / 2) * 2 ^ (f.exponents - 2 - f.bias)

/-- The number `±r` rounds to the finite datum of the bits, ties to even. It is said by distances
to the other data alone and does not refer to how a datum was written. -/
structure Rounds (f : Format) (negative : Bool) (r : ℚ) (bits : Nat) : Prop where
  lt_overflow : r < f.overflow
  nearest : ∃ x, f.datum bits = .finite negative x ∧
    ∀ bits' x', f.datum bits' = .finite negative x' →
      |r - x.toRat| ≤ |r - x'.toRat| ∧
        (x'.toRat ≠ x.toRat → |r - x'.toRat| = |r - x.toRat| → x.m % 2 = 0)

/-- The format has a fraction and more than one exponent of finite data. -/
structure Regular (f : Format) : Prop where
  even_fractions : 2 ∣ f.fractions
  le_exponents : 3 ≤ f.exponents

theorem regular_binary64 : binary64.Regular :=
  ⟨by decide, by decide⟩

theorem fractions_pos (f : Format) : 0 < f.fractions := Nat.pow_pos two_pos

theorem exponents_pos (f : Format) : 0 < f.exponents := Nat.pow_pos two_pos

/-! ## Patterns -/

def pattern (f : Format) (bits : Nat) : Nat := bits % (f.fractions * f.exponents)

def isNegative (f : Format) (bits : Nat) : Bool := bits / f.fractions / f.exponents % 2 = 1

def infinity (f : Format) : Nat := (f.exponents - 1) * f.fractions

def ofFields (f : Format) (exponent fraction : Nat) : Dyadic :=
  if exponent = 0 then ⟨fraction, 1 - f.bias, false⟩
  else ⟨f.fractions + fraction, exponent - f.bias, fraction = 0 && 1 < exponent⟩

def dyadic (f : Format) (n : Nat) : Dyadic :=
  f.ofFields (n / f.fractions) (n % f.fractions)

theorem datum_eq_finite_iff {f : Format} {bits : Nat} {negative : Bool} {x : Dyadic} :
    f.datum bits = .finite negative x ↔
      f.pattern bits < f.infinity ∧ f.isNegative bits = negative ∧
        f.dyadic (f.pattern bits) = x := by
  have hexponent : f.pattern bits / f.fractions = bits / f.fractions % f.exponents :=
    Nat.mod_mul_right_div_self _ _ _
  have hfraction : f.pattern bits % f.fractions = bits % f.fractions :=
    Nat.mod_mul_right_mod _ _ _
  have hlt := Nat.mod_lt (bits / f.fractions) f.exponents_pos
  have hfinite : f.pattern bits < f.infinity ↔
      bits / f.fractions % f.exponents ≠ f.exponents - 1 := by
    rw [infinity, ← Nat.div_lt_iff_lt_mul f.fractions_pos, hexponent]
    omega
  rw [hfinite]
  unfold datum dyadic ofFields isNegative
  simp only [hexponent, hfraction]
  split
  · next hlast => split <;> simp [hlast]
  · next hlast => split <;> simp [hlast]

theorem eq_of_pattern_eq {f : Format} {a b : Nat} (ha : a < 2 * (f.fractions * f.exponents))
    (hb : b < 2 * (f.fractions * f.exponents)) (hpattern : f.pattern a = f.pattern b)
    (hsign : f.isNegative a = f.isNegative b) : a = b := by
  have hsplit : ∀ n, f.fractions * f.exponents * (n / (f.fractions * f.exponents)) +
      n % (f.fractions * f.exponents) = n := fun n => Nat.div_add_mod _ _
  have hbit : ∀ {n}, n < 2 * (f.fractions * f.exponents) →
      n / (f.fractions * f.exponents) % 2 = n / (f.fractions * f.exponents) := fun hn =>
    Nat.mod_eq_of_lt (Nat.div_lt_of_lt_mul (by rwa [Nat.mul_comm] at hn))
  have hhigh : a / (f.fractions * f.exponents) = b / (f.fractions * f.exponents) := by
    unfold isNegative at hsign
    rw [Nat.div_div_eq_div_mul, Nat.div_div_eq_div_mul, hbit ha, hbit hb] at hsign
    have ha' := hbit ha
    have hb' := hbit hb
    rw [decide_eq_decide] at hsign
    omega
  unfold pattern at hpattern
  rw [← hsplit a, ← hsplit b, hhigh, hpattern]

/-! ## From a pattern to the next one -/

variable {f : Format}

theorem succ_cases (f : Format) (n : Nat) :
    (n + 1) / f.fractions = n / f.fractions ∧ (n + 1) % f.fractions = n % f.fractions + 1 ∨
      (n + 1) / f.fractions = n / f.fractions + 1 ∧ (n + 1) % f.fractions = 0 ∧
        n % f.fractions + 1 = f.fractions := by
  have hlt := Nat.mod_lt n f.fractions_pos
  have hsplit := Nat.div_add_mod n f.fractions
  rcases Nat.lt_or_ge (n % f.fractions + 1) f.fractions with hnext | hfull
  · left
    have hsum : n + 1 = f.fractions * (n / f.fractions) + (n % f.fractions + 1) := by omega
    constructor
    · rw [hsum, Nat.mul_add_div f.fractions_pos, Nat.div_eq_of_lt hnext, Nat.add_zero]
    · conv_lhs => rw [hsum, Nat.mul_add_mod, Nat.mod_eq_of_lt hnext]
  · right
    have hfull' : n % f.fractions + 1 = f.fractions := by omega
    have hsum : n + 1 = f.fractions * (n / f.fractions + 1) := by
      rw [Nat.mul_add, Nat.mul_one]
      omega
    refine ⟨?_, ?_, hfull'⟩
    · rw [hsum, Nat.mul_div_cancel_left _ f.fractions_pos]
    · conv_lhs => rw [hsum, Nat.mul_mod_right]

/-- The next pattern adds one to `m`, or goes on with half of it and the next exponent. -/
theorem dyadic_succ_cases (f : Format) (n : Nat) :
    (f.dyadic (n + 1)).m = (f.dyadic n).m + 1 ∧ (f.dyadic (n + 1)).q = (f.dyadic n).q ∧
        (f.dyadic (n + 1)).narrow = false ∨
      2 * (f.dyadic (n + 1)).m = (f.dyadic n).m + 1 ∧
        (f.dyadic (n + 1)).q = (f.dyadic n).q + 1 ∧ (f.dyadic (n + 1)).narrow = true := by
  rcases f.succ_cases n with ⟨hdiv, hmod⟩ | ⟨hdiv, hmod, hfull⟩
  · left
    unfold dyadic ofFields
    rw [hdiv, hmod]
    split <;> simp [Nat.add_assoc]
  · by_cases hzero : n / f.fractions = 0
    · left
      unfold dyadic ofFields
      rw [hdiv, hmod, hzero]
      simp [hfull]
    · right
      unfold dyadic ofFields
      rw [hdiv, hmod, if_neg hzero, if_neg (Nat.succ_ne_zero _)]
      refine ⟨?_, ?_, ?_⟩
      · dsimp only
        omega
      · push_cast
        ring
      · simp [Nat.pos_of_ne_zero hzero]

theorem toRat_succ (f : Format) (n : Nat) :
    (f.dyadic (n + 1)).toRat = (f.dyadic n).toRat + 4 * (f.dyadic n).quarter := by
  have htwo : (2 : ℚ) ≠ 0 := by norm_num
  rw [Dyadic.toRat_eq, Dyadic.toRat_eq]
  unfold Dyadic.quarter
  rcases f.dyadic_succ_cases n with ⟨hm, hq, -⟩ | ⟨hm, hq, -⟩
  · rw [hm, hq]
    push_cast
    ring
  · have hm' : ((f.dyadic n).m : ℚ) = 2 * (f.dyadic (n + 1)).m - 1 := by
      rw [eq_sub_iff_add_eq]
      exact_mod_cast hm.symm
    rw [hq, add_sub_right_comm, zpow_add_one₀ htwo]
    push_cast
    rw [hm']
    ring

theorem lower_succ (f : Format) (n : Nat) :
    (f.dyadic (n + 1)).lower = (f.dyadic n).upper := by
  have htwo : (2 : ℚ) ≠ 0 := by norm_num
  unfold Dyadic.lower Dyadic.upper Dyadic.quarter
  rcases f.dyadic_succ_cases n with ⟨hm, hq, hnarrow⟩ | ⟨hm, hq, hnarrow⟩
  · have hcount : 4 * (f.dyadic (n + 1)).m - (if (f.dyadic (n + 1)).narrow then 1 else 2) =
        4 * (f.dyadic n).m + 2 := by
      rw [hnarrow, hm]
      simp only [Bool.false_eq_true, if_false]
      omega
    rw [hcount, hq]
  · have hcount : 2 * (4 * (f.dyadic (n + 1)).m -
        (if (f.dyadic (n + 1)).narrow then 1 else 2)) = 4 * (f.dyadic n).m + 2 := by
      rw [hnarrow, if_pos rfl]
      omega
    rw [hq, add_sub_right_comm, zpow_add_one₀ htwo, ← hcount]
    push_cast
    ring

/-- The bound between two neighbours is the middle of the two. -/
theorem upper_eq_middle (f : Format) (n : Nat) :
    2 * (f.dyadic n).upper = (f.dyadic n).toRat + (f.dyadic (n + 1)).toRat := by
  rw [Dyadic.upper_eq, toRat_succ]
  ring

theorem strictMono_toRat (f : Format) : StrictMono fun n => (f.dyadic n).toRat := by
  refine strictMono_nat_of_lt_succ fun n => ?_
  rw [toRat_succ]
  have hpos := (f.dyadic n).quarter_pos
  linarith

theorem m_mod_two (hf : f.Regular) (n : Nat) : (f.dyadic n).m % 2 = n % 2 := by
  have hfraction : n % f.fractions % 2 = n % 2 := Nat.mod_mod_of_dvd n hf.even_fractions
  obtain ⟨c, hc⟩ := hf.even_fractions
  unfold dyadic ofFields
  split
  · exact hfraction
  · dsimp only
    omega

/-! ## The nearest datum -/

variable {n n' : Nat} {r : ℚ}

/-- Up to the upper bound no greater number is nearer, and only the next one can be equally
near. -/
theorem nearer_of_le_upper (h : r ≤ (f.dyadic n).upper) (hlt : n < n') :
    |r - (f.dyadic n).toRat| ≤ |r - (f.dyadic n').toRat| ∧
      (|r - (f.dyadic n').toRat| = |r - (f.dyadic n).toRat| →
        r = (f.dyadic n).upper ∧ n' = n + 1) := by
  have hmiddle := f.upper_eq_middle n
  have hself := f.strictMono_toRat (Nat.lt_succ_self n)
  have hnext := f.strictMono_toRat.monotone (Nat.succ_le_of_lt hlt)
  simp only at hself hnext
  have hfar : |r - (f.dyadic n').toRat| = (f.dyadic n').toRat - r := by
    rw [abs_sub_comm, abs_of_nonneg]
    linarith
  rw [hfar]
  rcases le_total (f.dyadic n).toRat r with hle | hle
  · rw [abs_of_nonneg (sub_nonneg.2 hle)]
    refine ⟨by linarith, fun heq => ?_⟩
    have hupper : r = (f.dyadic n).upper := by linarith
    have htoRat : (f.dyadic n').toRat = (f.dyadic (n + 1)).toRat := by linarith
    exact ⟨hupper, f.strictMono_toRat.injective htoRat⟩
  · rw [abs_sub_comm, abs_of_nonneg (sub_nonneg.2 hle)]
    refine ⟨by linarith, fun heq => ?_⟩
    linarith

theorem nearer_of_lower_le (h : (f.dyadic n).lower ≤ r) (hlt : n' < n) :
    |r - (f.dyadic n).toRat| ≤ |r - (f.dyadic n').toRat| ∧
      (|r - (f.dyadic n').toRat| = |r - (f.dyadic n).toRat| →
        r = (f.dyadic n).lower ∧ n = n' + 1) := by
  obtain ⟨p, rfl⟩ := Nat.exists_eq_succ_of_ne_zero (Nat.ne_zero_of_lt hlt)
  have hmiddle := f.upper_eq_middle p
  rw [← lower_succ] at hmiddle
  have hself := f.strictMono_toRat (Nat.lt_succ_self p)
  have hbefore := f.strictMono_toRat.monotone (Nat.le_of_lt_succ hlt)
  simp only [Nat.succ_eq_add_one] at hself hbefore h hmiddle ⊢
  have hfar : |r - (f.dyadic n').toRat| = r - (f.dyadic n').toRat := by
    rw [abs_of_nonneg]
    linarith
  rw [hfar]
  rcases le_total r (f.dyadic (p + 1)).toRat with hle | hle
  · rw [abs_sub_comm, abs_of_nonneg (sub_nonneg.2 hle)]
    refine ⟨by linarith, fun heq => ?_⟩
    have hlower : r = (f.dyadic (p + 1)).lower := by linarith
    have htoRat : (f.dyadic p).toRat = (f.dyadic n').toRat := by linarith
    exact ⟨hlower, congrArg (· + 1) (f.strictMono_toRat.injective htoRat)⟩
  · rw [abs_of_nonneg (sub_nonneg.2 hle)]
    refine ⟨by linarith, fun heq => ?_⟩
    linarith

/-- A number between the bounds of a datum is nearest to it. A neighbour is equally near
only if the datum is even. -/
theorem nearest_of_admits (h : (f.dyadic n).Admits r) (hne : n' ≠ n) :
    |r - (f.dyadic n).toRat| ≤ |r - (f.dyadic n').toRat| ∧
      (|r - (f.dyadic n').toRat| = |r - (f.dyadic n).toRat| →
        (f.dyadic n).m % 2 = 0 ∧ (n' = n + 1 ∨ n = n' + 1)) := by
  obtain ⟨hlower, hupper, hodd⟩ := h
  rcases Nat.lt_or_gt_of_ne hne with hlt | hgt
  · obtain ⟨hle, heq⟩ := nearer_of_lower_le hlower hlt
    refine ⟨hle, fun h => ?_⟩
    obtain ⟨hbound, hnext⟩ := heq h
    exact ⟨by_contra fun hm => (hodd hm).1.ne' hbound, .inr hnext⟩
  · obtain ⟨hle, heq⟩ := nearer_of_le_upper hupper hgt
    refine ⟨hle, fun h => ?_⟩
    obtain ⟨hbound, hnext⟩ := heq h
    exact ⟨by_contra fun hm => (hodd hm).2.ne hbound, .inl hnext⟩

theorem upper_last (hf : f.Regular) : (f.dyadic (f.infinity - 1)).upper = f.overflow := by
  have hfractions := f.fractions_pos
  obtain ⟨a, ha⟩ : ∃ a, f.exponents = a + 3 := ⟨f.exponents - 3, by have := hf.le_exponents; omega⟩
  have hlast : f.infinity - 1 = f.fractions * (a + 1) + (f.fractions - 1) := by
    have hexponents : f.exponents - 1 = a + 1 + 1 := by omega
    rw [infinity, hexponents, Nat.mul_comm, Nat.mul_add f.fractions (a + 1) 1]
    omega
  have hdiv : (f.infinity - 1) / f.fractions = a + 1 := by
    rw [hlast, Nat.mul_add_div hfractions, Nat.div_eq_of_lt (Nat.sub_lt hfractions one_pos),
      Nat.add_zero]
  have hmod : (f.infinity - 1) % f.fractions = f.fractions - 1 := by
    rw [hlast, Nat.mul_add_mod, Nat.mod_eq_of_lt (Nat.sub_lt hfractions one_pos)]
  have htwo : (2 : ℚ) ≠ 0 := by norm_num
  unfold Dyadic.upper Dyadic.quarter overflow dyadic ofFields
  rw [hdiv, hmod, if_neg (Nat.succ_ne_zero a), ha]
  have hexp : (((a + 3 : Nat) : Int) - 2 - f.bias) = (((a + 1 : Nat) : Int) - f.bias) := by
    push_cast
    ring
  rw [hexp, zpow_sub₀ htwo]
  push_cast [Nat.cast_sub hfractions]
  ring

theorem lt_overflow_of_admits (hf : f.Regular) (hn : n < f.infinity)
    (h : (f.dyadic n).Admits r) : r < f.overflow := by
  obtain ⟨-, hupper, hodd⟩ := h
  rw [← upper_last hf]
  rcases Nat.lt_or_ge n (f.infinity - 1) with hlt | hge
  · have hnext := f.strictMono_toRat.monotone (Nat.succ_le_of_lt hlt)
    have hself := f.strictMono_toRat (Nat.lt_succ_self n)
    have hmiddle := f.upper_eq_middle n
    have hlast := (f.dyadic (f.infinity - 1)).toRat_lt_upper
    simp only [Nat.succ_eq_add_one] at hnext hself
    linarith
  · have hlast : n = f.infinity - 1 := by omega
    have hparity : (f.dyadic n).m % 2 ≠ 0 := by
      have heven : f.infinity % 2 = 0 :=
        Nat.mod_eq_zero_of_dvd (Dvd.dvd.mul_left hf.even_fractions _)
      rw [m_mod_two hf]
      omega
    rw [← hlast]
    exact (hodd hparity).2

/-- A number between the bounds of a finite datum rounds to it, and to nothing else. -/
theorem rounds_iff (hf : f.Regular) {bits bits' : Nat} {negative : Bool} {x : Dyadic}
    (hbits : bits < 2 * (f.fractions * f.exponents))
    (hbits' : bits' < 2 * (f.fractions * f.exponents))
    (hdatum : f.datum bits = .finite negative x) (h : x.Admits r) :
    f.Rounds negative r bits' ↔ bits' = bits := by
  obtain ⟨hfinite, hsign, rfl⟩ := datum_eq_finite_iff.1 hdatum
  constructor
  · rintro ⟨-, x', hdatum', hnearest⟩
    obtain ⟨-, hsign', rfl⟩ := datum_eq_finite_iff.1 hdatum'
    refine eq_of_pattern_eq hbits' hbits ?_ (hsign'.trans hsign.symm)
    by_contra hne
    obtain ⟨hle, htie⟩ := hnearest bits _ hdatum
    obtain ⟨hle', htie'⟩ := nearest_of_admits h hne
    have heq := le_antisymm hle' hle
    obtain ⟨heven, hnext⟩ := htie' heq.symm
    have heven' := htie (fun h => hne (f.strictMono_toRat.injective h).symm) heq
    rw [m_mod_two hf] at heven heven'
    omega
  · rintro rfl
    refine ⟨lt_overflow_of_admits hf hfinite h, _, hdatum, fun bits'' x'' hdatum'' => ?_⟩
    obtain ⟨-, -, rfl⟩ := datum_eq_finite_iff.1 hdatum''
    by_cases hne : f.pattern bits'' = f.pattern bits'
    · rw [hne]
      exact ⟨le_rfl, fun h => absurd rfl h⟩
    · obtain ⟨hle, htie⟩ := nearest_of_admits h hne
      exact ⟨hle, fun _ heq => (htie heq).1⟩

end Format

end ProgramHost.Numeral
