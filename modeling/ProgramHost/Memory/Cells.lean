/-!
# Sparse cells

`Cells d` holds one byte for each address below `2^d`. It is a binary tree that
branches on the highest bit of the address first. A subtree that has the same
byte everywhere is not spelled out, so untouched memory takes no room, and a
range is filled without going through its bytes. A range is copied subtree by
subtree: what a subtree is given lies in two neighbouring subtrees of its own
size. Of an address only the lowest `d` bits count.
-/

namespace ProgramHost

/-- A byte for each address below `2^d`, branching on the highest bit first. Cells with one byte
everywhere are not unique: a fork of equal halves holds the same bytes. -/
inductive Cells : Nat → Type where
  | uniform {d : Nat} (b : UInt8) : Cells d
  | fork {d : Nat} (low high : Cells d) : Cells (d + 1)

namespace Cells

def get : {d : Nat} → Cells d → Nat → UInt8
  | _, .uniform b, _ => b
  | d + 1, .fork low high, i => if i.testBit d then high.get i else low.get i

def set : {d : Nat} → Cells d → Nat → UInt8 → Cells d
  | 0, _, _, b => .uniform b
  | d + 1, .uniform c, i, b =>
      if i.testBit d then .fork (.uniform c) (set (.uniform c) i b)
      else .fork (set (.uniform c) i b) (.uniform c)
  | d + 1, .fork low high, i, b =>
      if i.testBit d then .fork low (high.set i b) else .fork (low.set i b) high

def setAll {d : Nat} : Cells d → Nat → List UInt8 → Cells d
  | t, _, [] => t
  | t, i, b :: bs => (t.set i b).setAll (i + 1) bs

def capacity : Nat → Nat
  | 0 => 1
  | d + 1 => 2 * capacity d

/-- The cells with a byte put at the addresses from `start` below `stop`. -/
def fill : {d : Nat} → Cells d → Nat → Nat → UInt8 → Cells d
  | 0, t, start, stop, b => if start = 0 ∧ 0 < stop then .uniform b else t
  | d + 1, t, start, stop, b =>
      if stop ≤ start ∨ capacity (d + 1) ≤ start then t
      else if start = 0 ∧ capacity (d + 1) ≤ stop then .uniform b
      else
        match t with
        | .uniform c =>
            .fork (fill (.uniform c) start stop b)
              (fill (.uniform c) (start - capacity d) (stop - capacity d) b)
        | .fork low high =>
            .fork (low.fill start stop b) (high.fill (start - capacity d) (stop - capacity d) b)

def low {d : Nat} : Cells (d + 1) → Cells d
  | .uniform b => .uniform b
  | .fork l _ => l

def high {d : Nat} : Cells (d + 1) → Cells d
  | .uniform b => .uniform b
  | .fork _ h => h

/-- The byte of cells that are not spelled out. -/
def uniform? {d : Nat} : Cells d → Option UInt8
  | .uniform b => some b
  | .fork _ _ => none

/-- The cells with other bytes put at the addresses from `start` below `stop`: at
the address `j` the byte at `j + o` of the cells `l` followed by the cells `r`. -/
def paste : {d : Nat} → Cells d → Cells d → Cells d → Nat → Nat → Nat → Cells d
  | 0, t, l, r, o, start, stop =>
      if start = 0 ∧ 0 < stop then (if o = 0 then l else r) else t
  | d + 1, t, l, r, o, start, stop =>
      if stop ≤ start ∨ capacity (d + 1) ≤ start then t
      else if (start = 0 ∧ capacity (d + 1) ≤ stop) ∧
          (o = 0 ∨ (l.uniform?.isSome ∧ l.uniform? = r.uniform?)) then l
      else if o < capacity d then
        .fork (paste t.low l.low l.high o start stop)
          (paste t.high l.high r.low o (start - capacity d) (stop - capacity d))
      else
        .fork (paste t.low l.high r.low (o - capacity d) start stop)
          (paste t.high r.low r.high (o - capacity d) (start - capacity d)
            (stop - capacity d))

/-- The cells with the `len` bytes at `source` put at `target` as well. -/
def copy {d : Nat} (t : Cells d) (target source len : Nat) : Cells d :=
  t.paste t t ((source + (capacity d - target)) % capacity d) target (target + len)

@[simp] theorem get_uniform {d : Nat} (b : UInt8) (i : Nat) :
    (uniform b : Cells d).get i = b := by
  simp [get]

theorem capacity_succ (d : Nat) : capacity (d + 1) = 2 * capacity d := rfl

theorem capacity_eq_pow (d : Nat) : capacity d = Nat.pow 2 d := by
  induction d with
  | zero => rfl
  | succ d ih => rw [capacity_succ, ih, Nat.mul_comm]; rfl

theorem capacity_pos (d : Nat) : 0 < capacity d := by
  induction d with
  | zero => exact Nat.one_pos
  | succ d ih => rw [capacity_succ]; omega

theorem testBit_eq_decide (d i : Nat) :
    i.testBit d = decide (i / capacity d % 2 = 1) := by
  rw [Nat.testBit_eq_decide_div_mod_eq, capacity_eq_pow]
  rfl

theorem mod_capacity_succ_eq_iff (d i j : Nat) :
    j % capacity (d + 1) = i % capacity (d + 1) ↔
      j.testBit d = i.testBit d ∧ j % capacity d = i % capacity d := by
  have hi := Nat.mod_lt i (capacity_pos d)
  have hj := Nat.mod_lt j (capacity_pos d)
  rw [capacity_succ, Nat.mul_comm, Nat.mod_mul, Nat.mod_mul, testBit_eq_decide,
    testBit_eq_decide, decide_eq_decide]
  rcases Nat.mod_two_eq_zero_or_one (i / capacity d) with h | h <;>
    rcases Nat.mod_two_eq_zero_or_one (j / capacity d) with k | k <;>
    simp [h, k] <;> omega

theorem get_congr {d : Nat} (t : Cells d) {i j : Nat} (h : j % capacity d = i % capacity d) :
    t.get j = t.get i := by
  induction d with
  | zero => cases t with
    | uniform b => simp
  | succ d ih =>
      obtain ⟨hb, hm⟩ := (mod_capacity_succ_eq_iff d i j).1 h
      cases t with
      | uniform b => simp
      | fork low high => simp only [get, hb, ih low hm, ih high hm]

theorem get_set_mod {d : Nat} (t : Cells d) (i j : Nat) (b : UInt8) :
    (t.set i b).get j = if j % capacity d = i % capacity d then b else t.get j := by
  induction d with
  | zero => simp [set, capacity, Nat.mod_one]
  | succ d ih =>
      simp only [mod_capacity_succ_eq_iff]
      cases t with
      | uniform c => simp only [set]; grind [get]
      | fork low high => simp only [set]; grind [get]

theorem get_set {d : Nat} (t : Cells d) {i j : Nat} (b : UInt8)
    (hi : i < capacity d) (hj : j < capacity d) :
    (t.set i b).get j = if j = i then b else t.get j := by
  rw [get_set_mod, Nat.mod_eq_of_lt hi, Nat.mod_eq_of_lt hj]

@[simp] theorem setAll_nil {d : Nat} (t : Cells d) (i : Nat) : t.setAll i [] = t := rfl

theorem setAll_cons {d : Nat} (t : Cells d) (i : Nat) (b : UInt8) (bs : List UInt8) :
    t.setAll i (b :: bs) = (t.set i b).setAll (i + 1) bs := rfl

theorem get_setAll {d : Nat} (t : Cells d) {i j : Nat} (bs : List UInt8)
    (hi : i + bs.length ≤ capacity d) (hj : j < capacity d) :
    (t.setAll i bs).get j =
      if h : i ≤ j ∧ j - i < bs.length then bs.get ⟨j - i, h.2⟩ else t.get j := by
  induction bs generalizing t i with
  | nil => simp
  | cons b bs ih =>
      rw [List.length_cons] at hi
      rw [setAll_cons, ih _ (by omega), get_set t b (by omega) hj]
      by_cases hji : j = i
      · subst hji
        simp [show ¬ (j + 1 ≤ j) by omega]
      · by_cases h : i + 1 ≤ j ∧ j - (i + 1) < bs.length
        · have h' : i ≤ j ∧ j - i < (b :: bs).length := by
            simp only [List.length_cons]
            omega
          have hs : j - i = j - (i + 1) + 1 := by omega
          rw [dif_pos h, dif_pos h']
          simp [hs]
        · have h' : ¬ (i ≤ j ∧ j - i < (b :: bs).length) := by
            simp only [List.length_cons]
            omega
          rw [dif_neg h, dif_neg h', if_neg hji]

theorem get_fork {d : Nat} (low high : Cells d) {j : Nat} (hj : j < capacity (d + 1)) :
    (fork low high).get j =
      if j < capacity d then low.get j else high.get (j - capacity d) := by
  rw [capacity_succ] at hj
  have hp := capacity_pos d
  simp only [get, testBit_eq_decide]
  by_cases h : j < capacity d
  · simp [h, Nat.div_eq_of_lt h]
  · have hq : j / capacity d = 1 := by
      rw [Nat.div_eq_iff hp]
      omega
    have hm : j % capacity d = (j - capacity d) % capacity d := by
      rw [Nat.mod_eq_sub_mod (by omega)]
    simp [h, hq, get_congr high hm]

theorem get_fill {d : Nat} (t : Cells d) (start stop : Nat) {j : Nat} (b : UInt8)
    (hj : j < capacity d) :
    (t.fill start stop b).get j = if start ≤ j ∧ j < stop then b else t.get j := by
  induction d generalizing start stop j with
  | zero =>
      have : j = 0 := by
        rw [capacity] at hj
        omega
      subst this
      simp only [fill]
      grind [get]
  | succ d ih =>
      have hp := capacity_succ d
      have key : ∀ low high : Cells d,
          (fork (low.fill start stop b)
            (high.fill (start - capacity d) (stop - capacity d) b)).get j =
            if start ≤ j ∧ j < stop then b else (fork low high).get j := by
        intro low high
        rw [get_fork _ _ hj, get_fork _ _ hj]
        by_cases h : j < capacity d
        · simp [h, ih low start stop h]
        · have hlt : j - capacity d < capacity d := by omega
          have hiff : (start - capacity d ≤ j - capacity d ∧
              j - capacity d < stop - capacity d) ↔ (start ≤ j ∧ j < stop) := by omega
          simp only [h, if_false, ih high _ _ hlt, hiff]
      unfold fill
      split
      · rw [if_neg (by omega)]
      · split
        · rw [if_pos (by omega), get_uniform]
        · cases t with
          | uniform c =>
              simp only
              rw [key, get_fork _ _ hj]
              simp
          | fork low high => exact key low high

theorem get_halves {d : Nat} (t : Cells (d + 1)) {j : Nat} (hj : j < capacity (d + 1)) :
    t.get j = if j < capacity d then t.low.get j else t.high.get (j - capacity d) := by
  cases t with
  | uniform b => simp [low, high]
  | fork l h => exact get_fork l h hj

theorem eq_of_uniform? {d : Nat} {l r : Cells d} (hl : l.uniform?.isSome)
    (h : l.uniform? = r.uniform?) : l = r := by
  cases l <;> cases r <;> simp_all [uniform?]

theorem get_of_uniform? {d : Nat} {t : Cells d} (h : t.uniform?.isSome) (i j : Nat) :
    t.get i = t.get j := by
  cases t with
  | uniform b => simp
  | fork l h => simp [uniform?] at h

theorem get_paste {d : Nat} (t l r : Cells d) {o : Nat} (start stop : Nat) {j : Nat}
    (ho : o < capacity d) (hj : j < capacity d) :
    (t.paste l r o start stop).get j =
      if start ≤ j ∧ j < stop then
        if j + o < capacity d then l.get (j + o) else r.get (j + o - capacity d)
      else t.get j := by
  induction d generalizing o start stop j with
  | zero =>
      have hj0 : j = 0 := by
        rw [capacity] at hj
        omega
      have ho0 : o = 0 := by
        rw [capacity] at ho
        omega
      subst hj0 ho0
      by_cases h : start = 0 ∧ 0 < stop <;> simp [paste, capacity, h]
  | succ d ih =>
      have hp := capacity_succ d
      have hq := capacity_pos d
      unfold paste
      split
      · rw [if_neg (by omega)]
      · split
        · next h =>
          rw [if_pos (by omega)]
          rcases h.2 with h0 | ⟨hs, he⟩
          · subst h0
            simp [hj]
          · rw [← eq_of_uniform? hs he]
            split <;> exact get_of_uniform? hs _ _
        · split
          · next hlow =>
            rw [get_fork _ _ hj, get_halves t hj]
            by_cases hjd : j < capacity d
            · have hc : j + o < capacity (d + 1) := by omega
              rw [if_pos hjd, if_pos hjd, ih _ _ _ _ _ hlow hjd, if_pos hc, get_halves l hc]
            · rw [if_neg hjd, if_neg hjd, ih _ _ _ _ _ hlow (by omega)]
              have hr : (start - capacity d ≤ j - capacity d ∧
                  j - capacity d < stop - capacity d) ↔ (start ≤ j ∧ j < stop) := by omega
              simp only [hr]
              congr 1
              by_cases hc : j + o < capacity (d + 1)
              · rw [if_pos hc, if_pos (show j - capacity d + o < _ by omega), get_halves l hc,
                  if_neg (by omega), show j + o - capacity d = j - capacity d + o by omega]
              · rw [if_neg hc, if_neg (show ¬ j - capacity d + o < _ by omega),
                  get_halves r (by omega), if_pos (by omega),
                  show j + o - capacity (d + 1) = j - capacity d + o - capacity d by omega]
          · next hlow =>
            have ho' : o - capacity d < capacity d := by omega
            rw [get_fork _ _ hj, get_halves t hj]
            by_cases hjd : j < capacity d
            · rw [if_pos hjd, if_pos hjd, ih _ _ _ _ _ ho' hjd]
              congr 1
              by_cases hc : j + o < capacity (d + 1)
              · rw [if_pos hc, if_pos (show j + (o - capacity d) < _ by omega), get_halves l hc,
                  if_neg (by omega), show j + o - capacity d = j + (o - capacity d) by omega]
              · rw [if_neg hc, if_neg (show ¬ j + (o - capacity d) < _ by omega),
                  get_halves r (by omega), if_pos (by omega),
                  show j + o - capacity (d + 1) = j + (o - capacity d) - capacity d by omega]
            · rw [if_neg hjd, if_neg hjd, ih _ _ _ _ _ ho' (by omega)]
              have hr : (start - capacity d ≤ j - capacity d ∧
                  j - capacity d < stop - capacity d) ↔ (start ≤ j ∧ j < stop) := by omega
              simp only [hr]
              congr 1
              rw [if_neg (show ¬ j + o < _ by omega), get_halves r (by omega)]
              by_cases hc : j + o - capacity (d + 1) < capacity d
              · rw [if_pos hc, if_pos (show j - capacity d + (o - capacity d) < _ by omega),
                  show j + o - capacity (d + 1) = j - capacity d + (o - capacity d) by omega]
              · rw [if_neg hc, if_neg (show ¬ j - capacity d + (o - capacity d) < _ by omega),
                  show j + o - capacity (d + 1) - capacity d =
                    j - capacity d + (o - capacity d) - capacity d by omega]

theorem get_copy {d : Nat} (t : Cells d) {target source len j : Nat}
    (ht : target + len ≤ capacity d) (hs : source + len ≤ capacity d) (hj : j < capacity d) :
    (t.copy target source len).get j =
      if target ≤ j ∧ j < target + len then t.get (source + (j - target)) else t.get j := by
  have hp := capacity_pos d
  rw [copy, get_paste t t t _ _ (Nat.mod_lt _ hp) hj]
  split
  · next h =>
    by_cases hw : source + (capacity d - target) < capacity d
    · rw [Nat.mod_eq_of_lt hw]
      by_cases hc : j + (source + (capacity d - target)) < capacity d
      · omega
      · rw [if_neg hc]
        congr 1
        omega
    · rw [Nat.mod_eq_sub_mod (by omega)]
      by_cases hz : source + (capacity d - target) - capacity d < capacity d
      · rw [Nat.mod_eq_of_lt hz, if_pos (by omega)]
        congr 1
        omega
      · omega
  · rfl

end Cells

end ProgramHost
