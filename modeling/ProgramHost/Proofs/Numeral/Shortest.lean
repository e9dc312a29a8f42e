import ProgramHost.Numeral.Shortest
import ProgramHost.Proofs.Numeral.Layout
/-!
# The search for the fewest digits

All comparisons of the search are of natural numbers over one denominator; here they are
read as comparisons of rational numbers. The value of a datum is `4 m` quarters of the unit
in its last place, and the numbers that round to it lie at most two quarters away.

The search goes down from the power of ten below the value. A grid whose step is not above
a quarter has a point that rounds to the value, and the fuel reaches such a grid. What is
found on the way rounds to the value as well, and it is not zero.
-/

namespace ProgramHost.Numeral

open Radix

namespace Dyadic

def toRat (x : Dyadic) : ℚ := x.m * 2 ^ x.q

/-- A quarter of the unit in the last place. -/
def quarter (x : Dyadic) : ℚ := 2 ^ (x.q - 2)

/-- The least number that may round to the value. -/
def lower (x : Dyadic) : ℚ := ((4 * x.m - if x.narrow then 1 else 2 : Nat) : ℚ) * x.quarter

def upper (x : Dyadic) : ℚ := ((4 * x.m + 2 : Nat) : ℚ) * x.quarter

/-- The number lies between the bounds, and on one of them only if `m` is even. -/
def Admits (x : Dyadic) (r : ℚ) : Prop :=
  x.lower ≤ r ∧ r ≤ x.upper ∧ (x.m % 2 ≠ 0 → x.lower < r ∧ r < x.upper)

theorem quarter_pos (x : Dyadic) : 0 < x.quarter := by
  unfold quarter
  positivity

theorem toRat_eq (x : Dyadic) : x.toRat = ((4 * x.m : Nat) : ℚ) * x.quarter := by
  have htwo : (2 : ℚ) ≠ 0 := by norm_num
  rw [toRat, quarter, zpow_sub₀ htwo]
  push_cast
  ring

theorem toRat_lt_upper (x : Dyadic) : x.toRat < x.upper := by
  rw [toRat_eq, upper]
  exact mul_lt_mul_of_pos_right (by exact_mod_cast Nat.lt_add_of_pos_right two_pos) x.quarter_pos

/-! ## The common denominator -/

theorem pow_toNat_eq {a : ℚ} (ha : a ≠ 0) (z : Int) :
    a ^ z.toNat = a ^ z * a ^ (-z).toNat := by
  rw [← zpow_natCast, ← zpow_natCast, ← zpow_add₀ ha]
  congr 1
  omega

/-- What the grid of the multiples of `10^e` is multiplied by to get whole numbers. -/
def scale (x : Dyadic) (e : Int) : ℚ := (lift e : ℚ) * x.den

theorem scale_pos (x : Dyadic) (e : Int) : 0 < x.scale e := by
  have hlift : 0 < lift e := Nat.pow_pos ten_pos
  have hden : 0 < x.den := Nat.pow_pos two_pos
  exact mul_pos (by exact_mod_cast hlift) (by exact_mod_cast hden)

theorem cast_mul_spacing (x : Dyadic) (e : Int) (k : Nat) :
    ((k * x.spacing e : Nat) : ℚ) = k * 10 ^ e * x.scale e := by
  have hten : ((Nat.pow 10 e.toNat : Nat) : ℚ) = 10 ^ e * lift e := by
    have h := pow_toNat_eq (a := 10) (by norm_num) e
    rw [lift]
    exact_mod_cast h
  rw [spacing, scale]
  push_cast [hten]
  ring

theorem cast_scaled_mul_lift (x : Dyadic) (e : Int) (n : Nat) :
    ((x.scaled n * lift e : Nat) : ℚ) = n * x.quarter * x.scale e := by
  have htwo : ((Nat.pow 2 (x.q - 2).toNat : Nat) : ℚ) = 2 ^ (x.q - 2) * x.den := by
    have h := pow_toNat_eq (a := 2) (by norm_num) (x.q - 2)
    rw [neg_sub] at h
    rw [den]
    exact_mod_cast h
  rw [scaled, scale, quarter]
  push_cast [htwo]
  ring

variable {x : Dyadic} {e : Int} {k : Nat}

theorem scaled_lt_spacing_iff (n : Nat) :
    x.scaled n * lift e < k * x.spacing e ↔ (n : ℚ) * x.quarter < k * 10 ^ e := by
  rw [← Nat.cast_lt (α := ℚ), cast_mul_spacing, cast_scaled_mul_lift,
    mul_lt_mul_iff_of_pos_right (x.scale_pos e)]

theorem spacing_lt_scaled_iff (n : Nat) :
    k * x.spacing e < x.scaled n * lift e ↔ (k : ℚ) * 10 ^ e < n * x.quarter := by
  rw [← Nat.cast_lt (α := ℚ), cast_mul_spacing, cast_scaled_mul_lift,
    mul_lt_mul_iff_of_pos_right (x.scale_pos e)]

theorem spacing_eq_scaled_iff (n : Nat) :
    k * x.spacing e = x.scaled n * lift e ↔ (k : ℚ) * 10 ^ e = n * x.quarter := by
  rw [← Nat.cast_inj (R := ℚ), cast_mul_spacing, cast_scaled_mul_lift,
    mul_left_inj' (x.scale_pos e).ne']

/-- The comparisons of the search say that the grid point rounds to the value. -/
theorem admits_iff : x.admits e k = true ↔ x.Admits (k * 10 ^ e) := by
  have hlow := scaled_lt_spacing_iff (x := x) (e := e) (k := k)
    (4 * x.m - if x.narrow then 1 else 2)
  have hhigh := spacing_lt_scaled_iff (x := x) (e := e) (k := k) (4 * x.m + 2)
  have hlow' := spacing_eq_scaled_iff (x := x) (e := e) (k := k)
    (4 * x.m - if x.narrow then 1 else 2)
  have hhigh' := spacing_eq_scaled_iff (x := x) (e := e) (k := k) (4 * x.m + 2)
  have hbounds : x.lower < x.upper := by
    refine mul_lt_mul_of_pos_right ?_ x.quarter_pos
    exact_mod_cast Nat.lt_of_le_of_lt (Nat.sub_le _ _) (Nat.lt_add_of_pos_right two_pos)
  simp only [admits, closed, Bool.or_eq_true, Bool.and_eq_true, decide_eq_true_eq, beq_iff_eq,
    low, high, hlow, hhigh, hlow', hhigh']
  change (x.lower < _ ∧ _ < x.upper ∨ _ ∧ (_ = x.lower ∨ _ = x.upper)) ↔ _
  generalize (k : ℚ) * 10 ^ e = r
  unfold Admits
  constructor
  · rintro (⟨hl, hh⟩ | ⟨heven, rfl | rfl⟩)
    · exact ⟨hl.le, hh.le, fun _ => ⟨hl, hh⟩⟩
    · exact ⟨le_rfl, hbounds.le, fun hodd => absurd heven hodd⟩
    · exact ⟨hbounds.le, le_rfl, fun hodd => absurd heven hodd⟩
  · rintro ⟨hl, hh, hodd⟩
    by_cases heven : x.m % 2 = 0
    · rcases hl.eq_or_lt with rfl | hl
      · exact .inr ⟨heven, .inl rfl⟩
      rcases hh.eq_or_lt with rfl | hh
      · exact .inr ⟨heven, .inr rfl⟩
      exact .inl ⟨hl, hh⟩
    · exact .inl (hodd heven)

/-! ## The grid points around the value -/

theorem spacing_pos (x : Dyadic) (e : Int) : 0 < x.spacing e :=
  Nat.mul_pos (Nat.pow_pos ten_pos) (Nat.pow_pos two_pos)

theorem floorOn_le (x : Dyadic) (e : Int) : (x.floorOn e : ℚ) * 10 ^ e ≤ x.toRat := by
  rw [toRat_eq, ← not_lt, ← scaled_lt_spacing_iff, Nat.not_lt]
  exact Nat.div_mul_le_self _ _

theorem lt_floorOn_add_one (x : Dyadic) (e : Int) :
    x.toRat < ((x.floorOn e + 1 : Nat) : ℚ) * 10 ^ e := by
  rw [toRat_eq, ← scaled_lt_spacing_iff]
  exact Nat.lt_mul_of_div_lt (Nat.lt_succ_self _) (x.spacing_pos e)

theorem floorOn_pos (h : (10 : ℚ) ^ e ≤ x.toRat) : 0 < x.floorOn e := by
  have hlt := h.trans_lt (x.lt_floorOn_add_one e)
  have hpos : (0 : ℚ) < 10 ^ e := by positivity
  have hone : (1 : ℚ) < ((x.floorOn e + 1 : Nat) : ℚ) := by
    by_contra hle
    exact absurd hlt (not_lt.2 (mul_le_of_le_one_left hpos.le (not_lt.1 hle)))
  have hone' : 1 < x.floorOn e + 1 := by exact_mod_cast hone
  omega

/-- On a grid with a step of at most a quarter, the last point not above the value rounds
to it. -/
theorem admits_floorOn (hm : 0 < x.m) (h : (10 : ℚ) ^ e ≤ x.quarter) :
    x.Admits (x.floorOn e * 10 ^ e) := by
  have hle := x.floorOn_le e
  have hlower : x.lower < x.floorOn e * 10 ^ e := by
    have hnext := x.lt_floorOn_add_one e
    have hgap : x.lower + x.quarter ≤ x.toRat := by
      have hstep : 4 * x.m - (if x.narrow then 1 else 2) + 1 ≤ 4 * x.m := by
        split <;> omega
      rw [lower, toRat_eq]
      calc _ = ((4 * x.m - (if x.narrow then 1 else 2) + 1 : Nat) : ℚ) * x.quarter := by
            push_cast
            ring
        _ ≤ _ := mul_le_mul_of_nonneg_right (by exact_mod_cast hstep) x.quarter_pos.le
    push_cast at hnext
    linarith
  have hupper := hle.trans_lt x.toRat_lt_upper
  exact ⟨hlower.le, hupper.le, fun _ => ⟨hlower, hupper⟩⟩

/-! ## What the search finds -/

theorem nearer_eq_or (tie : Tie) (x : Dyadic) (e : Int) (k : Nat) :
    x.nearer tie e k = k ∨ x.nearer tie e k = k + 1 := by
  unfold nearer
  dsimp only
  split
  · exact .inl rfl
  split
  · exact .inr rfl
  split
  · exact .inr rfl
  · split
    · exact .inl rfl
    · exact .inr rfl

/-- A neighbour rounds to the value, and is not below the last point not above it. -/
theorem neighbour?_spec {tie : Tie} (h : x.neighbour? tie e = some k) :
    x.Admits (k * 10 ^ e) ∧ x.floorOn e ≤ k := by
  unfold neighbour? at h
  dsimp only at h
  split at h <;> simp only [Option.some.injEq, reduceCtorEq] at h <;> subst h
  · next hlow hhigh =>
      rcases nearer_eq_or tie x e (x.floorOn e) with heq | heq <;> rw [heq]
      · exact ⟨admits_iff.1 hlow, le_rfl⟩
      · exact ⟨admits_iff.1 hhigh, Nat.le_succ _⟩
  · next hlow _ => exact ⟨admits_iff.1 hlow, le_rfl⟩
  · next _ hhigh => exact ⟨admits_iff.1 hhigh, Nat.le_succ _⟩

theorem exists_neighbour? (tie : Tie) (hm : 0 < x.m) (h : (10 : ℚ) ^ e ≤ x.quarter) :
    ∃ k, x.neighbour? tie e = some k := by
  have hadmits := admits_iff.2 (admits_floorOn hm h)
  unfold neighbour?
  dsimp only
  rw [hadmits]
  cases x.admits e (x.floorOn e + 1) <;> exact ⟨_, rfl⟩

/-- From the grid of `10^start` downward the search stops at the grid of `10^e`, where it
takes the point `k`: on all grids before there is no point to take. -/
structure Stops (tie : Tie) (x : Dyadic) (start : Int) (k : Nat) (e : Int) : Prop where
  le_start : e ≤ start
  neighbour : x.neighbour? tie e = some k
  none_before : ∀ e', e < e' → e' ≤ start → x.neighbour? tie e' = none

/-- If the last of the grids that are tried has a step of at most a quarter, the search stops
at one of them. -/
theorem search_spec (tie : Tie) (hm : 0 < x.m) (fuel : Nat) {e : Int}
    (h : (10 : ℚ) ^ (e - fuel) ≤ x.quarter) :
    ∃ k e', x.search tie (fuel + 1) e = (k, e') ∧ Stops tie x e k e' := by
  induction fuel generalizing e with
  | zero =>
      rw [Int.natCast_zero, sub_zero] at h
      obtain ⟨k, hk⟩ := exists_neighbour? tie hm h
      exact ⟨k, e, by rw [search, hk], le_rfl, hk, fun e' hlt hle => absurd hle (not_le.2 hlt)⟩
  | succ fuel ih =>
      rw [search]
      cases hk : x.neighbour? tie e with
      | some k => exact ⟨k, e, rfl, le_rfl, hk, fun e' hlt hle => absurd hle (not_le.2 hlt)⟩
      | none =>
          have hnext : (10 : ℚ) ^ (e - 1 - fuel) ≤ x.quarter := by
            refine le_trans (le_of_eq ?_) h
            congr 1
            push_cast
            ring
          obtain ⟨k, e', hsearch, hstop⟩ := ih hnext
          have hle := hstop.le_start
          refine ⟨k, e', hsearch, by omega, hstop.neighbour, fun f hlt hf => ?_⟩
          rcases hf.eq_or_lt with rfl | hf
          · exact hk
          · exact hstop.none_before f hlt (Int.le_sub_one_of_lt hf)

theorem zpow_magnitude_le (hm : 0 < x.m) : (10 : ℚ) ^ x.magnitude ≤ x.toRat := by
  have hvalue : 0 < x.value :=
    Nat.mul_pos (Nat.mul_pos (by decide) hm) (Nat.pow_pos two_pos)
  have hden : 0 < x.den := Nat.pow_pos two_pos
  rw [toRat_eq]
  unfold magnitude
  split
  · next hle =>
      have hpow := pow_length_tens_le (Nat.div_pos hle hden)
      obtain ⟨n, hn⟩ := Nat.exists_eq_succ_of_ne_zero
        (Nat.ne_of_gt (List.length_pos_iff.2 (tens_ne_nil (x.value / x.den))))
      have hgrid : 10 ^ ((tens (x.value / x.den)).length - 1) * x.den ≤ x.value :=
        (Nat.mul_le_mul_right _ hpow).trans (Nat.div_mul_le_self _ _)
      rw [hn] at hgrid ⊢
      rw [← one_mul ((10 : ℚ) ^ _), ← Nat.cast_one (R := ℚ), ← not_lt, ← scaled_lt_spacing_iff,
        Nat.not_lt, spacing, lift]
      have hexp : ((n + 1 : Nat) : Int) - 1 = n := by omega
      rw [hexp]
      simpa [value] using hgrid
  · next hlt =>
      have hpow := lt_pow_length_tens ((x.den - 1) / x.value)
      rw [Nat.div_lt_iff_lt_mul hvalue] at hpow
      rw [← one_mul ((10 : ℚ) ^ _), ← Nat.cast_one (R := ℚ), ← not_lt, ← scaled_lt_spacing_iff,
        Nat.not_lt, spacing, lift]
      simp only [neg_neg, Int.toNat_neg_natCast, Int.toNat_natCast, Nat.pow_eq, pow_zero, one_mul]
      change x.den ≤ x.value * _
      rw [Nat.mul_comm]
      omega

theorem toRat_lt_zpow_magnitude (hm : 0 < x.m) : x.toRat < (10 : ℚ) ^ (x.magnitude + 1) := by
  have hvalue : 0 < x.value :=
    Nat.mul_pos (Nat.mul_pos (by decide) hm) (Nat.pow_pos two_pos)
  have hden : 0 < x.den := Nat.pow_pos two_pos
  rw [toRat_eq, ← one_mul ((10 : ℚ) ^ _), ← Nat.cast_one (R := ℚ), ← scaled_lt_spacing_iff]
  unfold magnitude
  split
  · next hle =>
      have hpow := lt_pow_length_tens (x.value / x.den)
      rw [Nat.div_lt_iff_lt_mul hden] at hpow
      rw [Int.sub_add_cancel, spacing, lift, one_mul]
      simpa [value] using hpow
  · next hlt =>
      have hquotient : 0 < (x.den - 1) / x.value := Nat.div_pos (by omega) hvalue
      have hpow := pow_length_tens_le hquotient
      rw [Nat.le_div_iff_mul_le hvalue] at hpow
      obtain ⟨n, hn⟩ := Nat.exists_eq_succ_of_ne_zero
        (Nat.ne_of_gt (List.length_pos_iff.2 (tens_ne_nil ((x.den - 1) / x.value))))
      rw [hn] at hpow ⊢
      have hexp : -((n + 1 : Nat) : Int) + 1 = -(n : Int) := by omega
      rw [hexp, spacing, lift, one_mul]
      simp only [neg_neg, Int.toNat_neg_natCast, Int.toNat_natCast, Nat.pow_eq, pow_zero, one_mul]
      change x.value * _ < x.den
      rw [Nat.mul_comm]
      simp only [Nat.succ_eq_add_one, Nat.add_sub_cancel] at hpow
      omega

theorem zpow_le_toRat_iff (hm : 0 < x.m) : (10 : ℚ) ^ e ≤ x.toRat ↔ e ≤ x.magnitude := by
  have hten : (1 : ℚ) < 10 := by norm_num
  constructor
  · intro h
    have hlt := (zpow_lt_zpow_iff_right₀ hten).1 (h.trans_lt (toRat_lt_zpow_magnitude hm))
    exact Int.lt_add_one_iff.1 hlt
  · exact fun h => (zpow_le_zpow_right₀ hten.le h).trans (zpow_magnitude_le hm)

theorem zpow_magnitude_sub_le (x : Dyadic) (hm : 0 < x.m) :
    (10 : ℚ) ^ (x.magnitude - (tens (4 * x.m)).length) ≤ x.quarter := by
  have hten : (10 : ℚ) ≠ 0 := by norm_num
  have hpow : (0 : ℚ) < 10 ^ (tens (4 * x.m)).length := by positivity
  have hdigits : ((4 * x.m : Nat) : ℚ) ≤ 10 ^ (tens (4 * x.m)).length := by
    exact_mod_cast (lt_pow_length_tens (4 * x.m)).le
  have hmagnitude := zpow_magnitude_le hm
  rw [toRat_eq] at hmagnitude
  rw [zpow_sub₀ hten, zpow_natCast, div_le_iff₀ hpow]
  calc (10 : ℚ) ^ x.magnitude ≤ ((4 * x.m : Nat) : ℚ) * x.quarter := hmagnitude
    _ ≤ 10 ^ (tens (4 * x.m)).length * x.quarter :=
        mul_le_mul_of_nonneg_right hdigits x.quarter_pos.le
    _ = x.quarter * 10 ^ (tens (4 * x.m)).length := mul_comm _ _

/-! ## The decimal that is found -/

theorem trimZeros_concat (ds : List Digit) (d : Digit) :
    trimZeros (ds ++ [d]) = if d.val = 0 then trimZeros ds else ds ++ [d] := by
  simp only [trimZeros, List.reverse_append, List.reverse_singleton, List.singleton_append,
    List.dropWhile_cons, decide_eq_true_eq]
  split
  · rfl
  · rw [List.reverse_cons, List.reverse_reverse]

theorem exists_eq_trimZeros_append (ds : List Digit) :
    ∃ n, ds = trimZeros ds ++ List.replicate n Digit.zero := by
  induction ds using List.reverseRecOn with
  | nil => exact ⟨0, rfl⟩
  | append_singleton ds d ih =>
      rw [trimZeros_concat]
      split
      · next hd =>
          obtain ⟨n, hn⟩ := ih
          have hzero : d = Digit.zero := Fin.ext hd
          refine ⟨n + 1, ?_⟩
          rw [List.replicate_succ', ← List.append_assoc, ← hn, hzero]
      · exact ⟨0, (List.append_nil _).symm⟩

/-- The zeros at the end of the digits of a number do not count, and those in front are
none. -/
theorem trimZeros_tens {k : Nat} (hk : 0 < k) (e : Int) :
    Scientific.Proper ⟨trimZeros (tens k), e + (tens k).length - 1⟩ ∧
      Scientific.magnitude ⟨trimZeros (tens k), e + (tens k).length - 1⟩ = k * 10 ^ e := by
  have hten : (10 : ℚ) ≠ 0 := by norm_num
  obtain ⟨d, ds, htens, hd⟩ := exists_tens_eq_cons hk
  obtain ⟨n, hn⟩ := exists_eq_trimZeros_append (tens k)
  have hvalue := ofDigits_tens k
  rw [hn, ofDigits_append_zeros] at hvalue
  constructor
  · cases htrim : trimZeros (tens k) with
    | nil =>
        rw [htrim, List.nil_append, htens] at hn
        have hzero := (List.eq_replicate_iff.1 hn).2 d List.mem_cons_self
        exact absurd (congrArg Fin.val hzero) hd
    | cons d' ds' =>
        rw [htrim, htens] at hn
        obtain ⟨rfl, -⟩ := List.cons.inj hn
        exact .nonzero hd
  · have hlength : (tens k).length = (trimZeros (tens k)).length + n := by
      conv_lhs => rw [hn, List.length_append, List.length_replicate]
    rw [Scientific.magnitude]
    dsimp only
    calc (ofDigits (trimZeros (tens k)) : ℚ) *
          10 ^ (e + (tens k).length - 1 + 1 - (trimZeros (tens k)).length)
        = ofDigits (trimZeros (tens k)) * 10 ^ ((n : Int) + e) := by
          congr 2
          omega
      _ = ((ofDigits (trimZeros (tens k)) * 10 ^ n : Nat) : ℚ) * 10 ^ e := by
          rw [zpow_add₀ hten, zpow_natCast]
          push_cast
          ring
      _ = k * 10 ^ e := by rw [hvalue]

/-- What is taken for a value that is not zero: the point at which the search stops. -/
theorem shortest_spec (tie : Tie) (hm : 0 < x.m) :
    ∃ k e, Stops tie x x.magnitude k e ∧ (x.shortest tie).Proper ∧
      (x.shortest tie).magnitude = k * 10 ^ e := by
  obtain ⟨k, e, hsearch, hstop⟩ := search_spec tie hm _ (x.zpow_magnitude_sub_le hm)
  obtain ⟨-, hfloor⟩ := neighbour?_spec hstop.neighbour
  have hgrid : (10 : ℚ) ^ e ≤ x.toRat :=
    (zpow_le_zpow_right₀ (by norm_num) hstop.le_start).trans (zpow_magnitude_le hm)
  obtain ⟨hproper, hmagnitude⟩ := trimZeros_tens ((floorOn_pos hgrid).trans_le hfloor) e
  have hshortest : x.shortest tie = ⟨trimZeros (tens k), e + (tens k).length - 1⟩ := by
    rw [shortest, if_neg (Nat.ne_of_gt hm), hsearch]
  exact ⟨k, e, hstop, hshortest ▸ hproper, hshortest ▸ hmagnitude⟩

theorem shortest_zero (tie : Tie) (hm : x.m = 0) : x.shortest tie = ⟨[.zero], 0⟩ :=
  if_pos hm

theorem magnitude_shortest_zero (tie : Tie) (hm : x.m = 0) :
    (x.shortest tie).magnitude = 0 := by
  rw [shortest_zero tie hm]
  simp [Scientific.magnitude, ofDigits, Digit.zero]

theorem proper_shortest (tie : Tie) (x : Dyadic) : (x.shortest tie).Proper := by
  rcases Nat.eq_zero_or_pos x.m with hm | hm
  · rw [shortest_zero tie hm]
    exact .zero
  · obtain ⟨k, e, -, hproper, -⟩ := x.shortest_spec tie hm
    exact hproper

/-- The shortest decimal rounds to the value. -/
theorem admits_shortest (tie : Tie) (x : Dyadic) : x.Admits (x.shortest tie).magnitude := by
  rcases Nat.eq_zero_or_pos x.m with hm | hm
  · rw [magnitude_shortest_zero tie hm]
    have hlower : x.lower = 0 := by
      rw [lower, hm, Nat.mul_zero, Nat.zero_sub, Nat.cast_zero, zero_mul]
    have hupper : 0 ≤ x.upper := mul_nonneg (Nat.cast_nonneg _) x.quarter_pos.le
    exact ⟨hlower.le, hupper, fun hodd => absurd (by rw [hm]) hodd⟩
  · obtain ⟨k, e, hstop, -, hmagnitude⟩ := x.shortest_spec tie hm
    rw [hmagnitude]
    exact (neighbour?_spec hstop.neighbour).1

end Dyadic

end ProgramHost.Numeral
