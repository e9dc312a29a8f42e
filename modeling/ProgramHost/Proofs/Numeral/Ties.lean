import ProgramHost.Proofs.Numeral.Shortest
/-!
# Two equally near decimals

The search for the fewest digits is told which of two equally near decimals to take. What it
is told has no influence on the grid at which it stops, since the numbers that round to a
value lie all around it: a grid has a point among them exactly if one of the two points next
to the value is. So only what is taken there can differ. `Dyadic.TiesAt` says when it does,
without the search, and in that case the upper decimal is taken or the even one.
-/

namespace ProgramHost.Numeral

open Radix

namespace Dyadic

variable {x : Dyadic} {e : Int} {k : Nat}

theorem lower_lt_toRat (hm : 0 < x.m) : x.lower < x.toRat := by
  rw [lower, toRat_eq]
  refine mul_lt_mul_of_pos_right ?_ x.quarter_pos
  have hlt : 4 * x.m - (if x.narrow then 1 else 2) < 4 * x.m := by
    split <;> omega
  exact_mod_cast hlt

theorem lower_pos (hm : 0 < x.m) : 0 < x.lower := by
  refine mul_pos ?_ x.quarter_pos
  have hpos : 0 < 4 * x.m - (if x.narrow then 1 else 2) := by
    split <;> omega
  exact_mod_cast hpos

theorem Admits.of_le {r t : ℚ} (h : x.Admits r) (hrt : r ≤ t) (ht : t ≤ x.toRat) :
    x.Admits t :=
  ⟨h.1.trans hrt, ht.trans x.toRat_lt_upper.le, fun hodd =>
    ⟨(h.2.2 hodd).1.trans_le hrt, ht.trans_lt x.toRat_lt_upper⟩⟩

theorem Admits.of_ge {r t : ℚ} (h : x.Admits r) (hm : 0 < x.m) (htr : t ≤ r)
    (ht : x.toRat ≤ t) : x.Admits t :=
  ⟨(lower_lt_toRat hm).le.trans ht, htr.trans h.2.1, fun hodd =>
    ⟨(lower_lt_toRat hm).trans_le ht, htr.trans_lt (h.2.2 hodd).2⟩⟩

/-- Trying the two points around the value is enough: if neither rounds to it, then no point
of the grid does. -/
theorem neighbour?_eq_none_iff {tie : Tie} (hm : 0 < x.m) :
    x.neighbour? tie e = none ↔ ∀ l : Nat, ¬ x.Admits (l * 10 ^ e) := by
  have hpos : (0 : ℚ) < 10 ^ e := by positivity
  constructor
  · intro hnone l hl
    have hpoints : x.admits e (x.floorOn e) = false ∧ x.admits e (x.floorOn e + 1) = false := by
      unfold neighbour? at hnone
      dsimp only at hnone
      split at hnone <;> simp_all
    rcases Nat.lt_or_ge (x.floorOn e) l with hlt | hle
    · have hnext : ((x.floorOn e + 1 : Nat) : ℚ) * 10 ^ e ≤ l * 10 ^ e :=
        mul_le_mul_of_nonneg_right (by exact_mod_cast hlt) hpos.le
      have hadmits := hl.of_ge hm hnext (x.lt_floorOn_add_one e).le
      rw [← admits_iff, hpoints.2] at hadmits
      cases hadmits
    · have hnext : (l : ℚ) * 10 ^ e ≤ x.floorOn e * 10 ^ e :=
        mul_le_mul_of_nonneg_right (by exact_mod_cast hle) hpos.le
      have hadmits := hl.of_le hnext (x.floorOn_le e)
      rw [← admits_iff, hpoints.1] at hadmits
      cases hadmits
  · intro hnone
    cases hk : x.neighbour? tie e with
    | none => rfl
    | some k => exact absurd (neighbour?_spec hk).1 (hnone k)

/-- The decision between equally near points has no influence on where the search stops. -/
theorem Stops.exponent_le {tie tie' : Tie} {start e' : Int} {k' : Nat}
    (h : Stops tie x start k e) (h' : Stops tie' x start k' e') (hm : 0 < x.m) : e' ≤ e := by
  refine not_lt.1 fun hlt => ?_
  have hnone := (neighbour?_eq_none_iff hm).1 (h.none_before e' hlt h'.le_start)
  exact hnone k' (neighbour?_spec h'.neighbour).1

/-- The value lies in the middle of two neighbouring multiples of `10^e`, of which the lower
one is even. Both round to the value, and no multiple of a greater power of ten does, up to
the power just below the value. -/
structure TiesAt (x : Dyadic) (k : Nat) (e : Int) : Prop where
  even : k % 2 = 0
  middle : x.toRat = (k + 1 / 2) * 10 ^ e
  admits : x.Admits (k * 10 ^ e)
  admits_succ : x.Admits ((k + 1 : Nat) * 10 ^ e)
  coarsest : ∀ e', e < e' → (10 : ℚ) ^ e' ≤ x.toRat → ∀ l : Nat, ¬ x.Admits (l * 10 ^ e')

theorem middle_iff :
    2 * (x.value * lift e) = (2 * k + 1) * x.spacing e ↔ x.toRat = (k + 1 / 2) * 10 ^ e := by
  rw [← Nat.cast_inj (R := ℚ), cast_mul_spacing, Nat.cast_mul, value, cast_scaled_mul_lift,
    ← toRat_eq, ← mul_assoc, mul_left_inj' (x.scale_pos e).ne']
  push_cast
  constructor <;> intro h <;> linarith

theorem nearer_ties (x : Dyadic) (e : Int) (k : Nat) :
    x.nearer .up e k = x.nearer .even e k ∨
      k % 2 = 0 ∧ 2 * (x.value * lift e) = (2 * k + 1) * x.spacing e := by
  unfold nearer
  dsimp only
  split
  · exact .inl rfl
  split
  · exact .inl rfl
  split
  · next heven => exact .inr ⟨heven, by omega⟩
  · exact .inl rfl

theorem nearer_up (h : 2 * (x.value * lift e) = (2 * k + 1) * x.spacing e) :
    x.nearer .up e k = k + 1 := by
  unfold nearer
  dsimp only
  rw [h, if_neg (Nat.lt_irrefl _), if_neg (Nat.lt_irrefl _)]

theorem nearer_even (h : 2 * (x.value * lift e) = (2 * k + 1) * x.spacing e)
    (heven : k % 2 = 0) : x.nearer .even e k = k := by
  unfold nearer
  dsimp only
  rw [h, if_neg (Nat.lt_irrefl _), if_neg (Nat.lt_irrefl _), if_pos heven]

theorem neighbour?_ties (x : Dyadic) (e : Int) :
    x.neighbour? .up e = x.neighbour? .even e ∨
      ∃ k : Nat, k % 2 = 0 ∧ x.toRat = (k + 1 / 2) * 10 ^ e ∧ x.Admits (k * 10 ^ e) ∧
        x.Admits ((k + 1 : Nat) * 10 ^ e) := by
  unfold neighbour?
  dsimp only
  split
  · next hlow hhigh =>
      rcases x.nearer_ties e (x.floorOn e) with heq | ⟨heven, hmiddle⟩
      · exact .inl (congrArg some heq)
      · exact .inr ⟨_, heven, middle_iff.1 hmiddle, admits_iff.1 hlow, admits_iff.1 hhigh⟩
  all_goals exact .inl rfl

theorem shortest_eq_or_tiesAt (x : Dyadic) :
    (x.shortest .up).magnitude = (x.shortest .even).magnitude ∨ ∃ k e, x.TiesAt k e := by
  rcases Nat.eq_zero_or_pos x.m with hm | hm
  · left
    rw [magnitude_shortest_zero _ hm, magnitude_shortest_zero _ hm]
  · obtain ⟨k, e, hup, -, hmup⟩ := x.shortest_spec .up hm
    obtain ⟨k', e', heven, -, hmeven⟩ := x.shortest_spec .even hm
    obtain rfl : e = e' := le_antisymm (heven.exponent_le hup hm) (hup.exponent_le heven hm)
    rcases x.neighbour?_ties e with heq | ⟨l, hparity, hmiddle, hadmits, hadmits'⟩
    · obtain rfl : k = k' := Option.some.inj
        (hup.neighbour.symm.trans (heq.trans heven.neighbour))
      exact .inl (hmup.trans hmeven.symm)
    · exact .inr ⟨l, e, hparity, hmiddle, hadmits, hadmits', fun f hlt hle =>
        (neighbour?_eq_none_iff hm).1
          (hup.none_before f hlt ((zpow_le_toRat_iff hm).1 hle))⟩

namespace TiesAt

theorem m_pos (h : x.TiesAt k e) : 0 < x.m := by
  refine Nat.pos_of_ne_zero fun hm => ?_
  have hzero : x.toRat = 0 := by rw [toRat, hm, Nat.cast_zero, zero_mul]
  have hpos : (0 : ℚ) < (k + 1 / 2) * 10 ^ e := by positivity
  rw [← h.middle, hzero] at hpos
  exact lt_irrefl _ hpos

theorem zpow_le_toRat (h : x.TiesAt k e) : (10 : ℚ) ^ e ≤ x.toRat := by
  have hpos : (0 : ℚ) < 10 ^ e := by positivity
  have hk : (1 : ℚ) ≤ k := by
    rcases Nat.eq_zero_or_pos k with rfl | hk
    · have hle := h.admits.1
      rw [Nat.cast_zero, zero_mul] at hle
      exact absurd hle (not_le.2 (lower_pos h.m_pos))
    · exact_mod_cast hk
  rw [h.middle]
  exact le_mul_of_one_le_left hpos.le (by linarith)

theorem floorOn_eq (h : x.TiesAt k e) : x.floorOn e = k := by
  have hpos : (0 : ℚ) < 10 ^ e := by positivity
  have hlow := x.floorOn_le e
  have hhigh := x.lt_floorOn_add_one e
  rw [h.middle] at hlow hhigh
  have hlow' := le_of_mul_le_mul_right hlow hpos
  have hhigh' := lt_of_mul_lt_mul_right hhigh hpos.le
  have hle : x.floorOn e < k + 1 := by
    have hlt : (x.floorOn e : ℚ) < k + 1 := by linarith
    exact_mod_cast hlt
  have hge : k < x.floorOn e + 1 := by
    have hlt : (k : ℚ) < ((x.floorOn e + 1 : Nat) : ℚ) := by linarith
    exact_mod_cast hlt
  omega

theorem neighbour?_eq (h : x.TiesAt k e) (tie : Tie) :
    x.neighbour? tie e = some (x.nearer tie e k) := by
  unfold neighbour?
  dsimp only
  rw [h.floorOn_eq, admits_iff.2 h.admits, admits_iff.2 h.admits_succ]

theorem stops (h : x.TiesAt k e) (tie : Tie) :
    Stops tie x x.magnitude (x.nearer tie e k) e where
  le_start := (zpow_le_toRat_iff h.m_pos).1 h.zpow_le_toRat
  neighbour := h.neighbour?_eq tie
  none_before f hlt hle := (neighbour?_eq_none_iff h.m_pos).2
    (h.coarsest f hlt ((zpow_le_toRat_iff h.m_pos).2 hle))

/-- At a tie either decision takes its own of the two decimals. -/
theorem magnitude_shortest (h : x.TiesAt k e) (tie : Tie) :
    (x.shortest tie).magnitude = x.nearer tie e k * 10 ^ e := by
  obtain ⟨l, f, hstop, -, hmagnitude⟩ := x.shortest_spec tie h.m_pos
  obtain rfl : f = e := le_antisymm ((h.stops tie).exponent_le hstop h.m_pos)
    (hstop.exponent_le (h.stops tie) h.m_pos)
  obtain rfl : l = x.nearer tie f k := Option.some.inj
    (hstop.neighbour.symm.trans (h.neighbour?_eq tie))
  exact hmagnitude

theorem magnitude_shortest_even (h : x.TiesAt k e) :
    (x.shortest .even).magnitude = k * 10 ^ e := by
  rw [h.magnitude_shortest, nearer_even (middle_iff.2 h.middle) h.even]

theorem magnitude_shortest_up (h : x.TiesAt k e) :
    (x.shortest .up).magnitude = (k + 1) * 10 ^ e := by
  rw [h.magnitude_shortest, nearer_up (middle_iff.2 h.middle), Nat.cast_add, Nat.cast_one]

end TiesAt

/-- The two decisions differ exactly at the ties. -/
theorem shortest_eq_iff (x : Dyadic) :
    (x.shortest .up).magnitude = (x.shortest .even).magnitude ↔ ¬ ∃ k e, x.TiesAt k e := by
  constructor
  · rintro heq ⟨k, e, h⟩
    rw [h.magnitude_shortest_up, h.magnitude_shortest_even] at heq
    have hpos : (0 : ℚ) < 10 ^ e := by positivity
    have hlt : (k : ℚ) * 10 ^ e < (k + 1) * 10 ^ e :=
      mul_lt_mul_of_pos_right (lt_add_one _) hpos
    exact absurd heq hlt.ne'
  · exact x.shortest_eq_or_tiesAt.resolve_right

end Dyadic

end ProgramHost.Numeral
