import ProgramHost.Proofs.Memory.Bytes
import ProgramHost.Proofs.Memory.Growth
/-!
# Blocks written one after the other

A block is some bytes at an address. Of blocks that are written one after the other the
last one that reaches an address is what is read there: `written bs i`. Blocks that are
apart are all read again, in whatever order they were written. This holds of the memory of
a program, which is written store by store, and of an image: `m.putAll bs`.
-/

namespace ProgramHost

/-- Bytes at an address. -/
structure Block where
  address : Nat
  bytes : List UInt8

namespace Block

def stop (b : Block) : Nat := b.address + b.bytes.length

def word (address : Nat) (w : UInt32) : Block :=
  ⟨address, LittleEndian.bytes 4 w.toNat⟩

def get? (b : Block) (i : Nat) : Option UInt8 :=
  if b.address ≤ i then b.bytes[i - b.address]? else none

/-- What blocks leave at an address, if they are written one after the other: the byte of the last
one that reaches it. -/
def written : List Block → Nat → Option UInt8
  | [], _ => none
  | b :: bs, i => (written bs i).or (b.get? i)

/-- The blocks have no address in common. -/
def Apart (b c : Block) : Prop := b.stop ≤ c.address ∨ c.stop ≤ b.address

theorem Apart.symm {b c : Block} (h : b.Apart c) : c.Apart b :=
  Or.symm h

@[simp] theorem written_nil (i : Nat) : written [] i = none := rfl

theorem written_cons (b : Block) (bs : List Block) (i : Nat) :
    written (b :: bs) i = (written bs i).or (b.get? i) := rfl

variable {b c : Block} {bs cs : List Block} {i : Nat}

theorem get?_add (b : Block) (i : Nat) : b.get? (b.address + i) = b.bytes[i]? := by
  rw [get?, if_pos (Nat.le_add_right _ _), Nat.add_sub_cancel_left]

theorem isSome_get?_iff (b : Block) (i : Nat) :
    (b.get? i).isSome ↔ b.address ≤ i ∧ i < b.stop := by
  unfold get? stop
  by_cases h : b.address ≤ i
  · rw [if_pos h, Option.isSome_iff_ne_none, ne_eq, List.getElem?_eq_none_iff]
    omega
  · rw [if_neg h]
    simp [h]

theorem get?_eq_none_iff (b : Block) (i : Nat) :
    b.get? i = none ↔ ¬ (b.address ≤ i ∧ i < b.stop) := by
  rw [← isSome_get?_iff, Option.not_isSome_iff_eq_none]

theorem isSome_written_iff (bs : List Block) (i : Nat) :
    (written bs i).isSome ↔ ∃ b ∈ bs, b.address ≤ i ∧ i < b.stop := by
  induction bs with
  | nil => simp
  | cons b bs ih =>
      rw [written_cons, Option.isSome_or, Bool.or_eq_true, ih, isSome_get?_iff]
      simp [or_comm]

theorem written_eq_none_iff (bs : List Block) (i : Nat) :
    written bs i = none ↔ ∀ b ∈ bs, ¬ (b.address ≤ i ∧ i < b.stop) := by
  rw [← Option.not_isSome_iff_eq_none, isSome_written_iff]
  simp

theorem written_of_mem (h : bs.Pairwise Apart) (hb : b ∈ bs) (hi : i < b.bytes.length) :
    written bs (b.address + i) = b.bytes[i]? := by
  induction bs with
  | nil => cases hb
  | cons c bs ih =>
      obtain ⟨hc, hbs⟩ := List.pairwise_cons.1 h
      rw [written_cons]
      rcases List.mem_cons.1 hb with rfl | hb
      · have hnone : written bs (b.address + i) = none := by
          rw [written_eq_none_iff]
          intro d hd hreach
          have hapart := hc d hd
          unfold Apart stop at hapart
          unfold stop at hreach
          omega
        rw [hnone, Option.none_or, get?_add]
      · have hread := ih hbs hb
        rw [List.getElem?_eq_getElem hi] at hread ⊢
        rw [hread, Option.some_or]

theorem stop_le_of_written_eq {n : Nat} (h : ∀ i, written bs i = written cs i)
    (hcs : ∀ c ∈ cs, c.stop ≤ n) (hb : b ∈ bs) (hbytes : b.bytes ≠ []) : b.stop ≤ n := by
  have hpos : 0 < b.bytes.length := List.length_pos_iff.2 hbytes
  have hreach : b.address ≤ b.stop - 1 ∧ b.stop - 1 < b.stop := by
    unfold stop
    omega
  have hsome : (written bs (b.stop - 1)).isSome := (isSome_written_iff _ _).2 ⟨b, hb, hreach⟩
  rw [h, isSome_written_iff] at hsome
  obtain ⟨c, hc, -, hlt⟩ := hsome
  have hle := hcs c hc
  omega

/-- It is the same to write a block as a whole or in two parts. -/
theorem written_split (address : Nat) (xs ys : List UInt8) (bs : List Block) (i : Nat) :
    written (⟨address, xs⟩ :: ⟨address + xs.length, ys⟩ :: bs) i =
      written (⟨address, xs ++ ys⟩ :: bs) i := by
  rw [written_cons, written_cons, written_cons, Option.or_assoc]
  refine congrArg _ ?_
  unfold get?
  simp only
  by_cases hy : address + xs.length ≤ i
  · rw [if_pos hy, if_pos (by omega), if_pos (by omega), List.getElem?_append_right (by omega),
      List.getElem?_eq_none (l := xs) (by omega), Option.or_none]
    congr 1
    omega
  · rw [if_neg hy, Option.none_or]
    by_cases hx : address ≤ i
    · rw [if_pos hx, if_pos hx, List.getElem?_append_left (by omega)]
    · rw [if_neg hx, if_neg hx]

end Block

namespace Image

variable {m : Image} {b : Block} {bs : List Block}

/-- An image holds a block that was written to it and that nothing was written over. -/
theorem holds_of_written (h : bs.Pairwise Block.Apart) (hb : b ∈ bs) (hstop : b.stop ≤ m.size)
    (hm : ∀ i x, Block.written bs i = some x → m.get? i = some x) :
    m.Holds b.address b.bytes := by
  refine ⟨hstop, fun i hi => ?_⟩
  have hread := Block.written_of_mem h hb hi
  rw [List.getElem?_eq_getElem hi] at hread ⊢
  exact hm _ _ hread

def put (m : Image) (b : Block) : Image :=
  m.write b.address (.ofList b.bytes)

def putAll (m : Image) (bs : List Block) : Image :=
  bs.foldl put m

theorem putAll_cons (m : Image) (b : Block) (bs : List Block) :
    m.putAll (b :: bs) = (m.put b).putAll bs := rfl

@[simp] theorem size_put (m : Image) (b : Block) : (m.put b).size = m.size := rfl

@[simp] theorem size_putAll (m : Image) (bs : List Block) : (m.putAll bs).size = m.size := by
  induction bs generalizing m with
  | nil => rfl
  | cons b bs ih => rw [putAll_cons, ih, size_put]

theorem get?_put (m : Image) (b : Block) {i : Nat} (hi : i < m.size) :
    (m.put b).get? i = (b.get? i).or (m.get? i) := by
  rw [get?, dif_pos (show i < (m.put b).size from hi)]
  by_cases hreach : b.address ≤ i ∧ i - b.address < b.bytes.length
  · have hbyte : (m.put b).byte ⟨i, hi⟩ = b.bytes.get ⟨i - b.address, hreach.2⟩ :=
      dif_pos hreach
    rw [hbyte, Block.get?, if_pos hreach.1, List.getElem?_eq_getElem hreach.2]
    rfl
  · have hbyte : (m.put b).byte ⟨i, hi⟩ = m.byte ⟨i, hi⟩ := dif_neg hreach
    have hnone : b.get? i = none := by
      rw [Block.get?_eq_none_iff, Block.stop]
      omega
    rw [hbyte, hnone, Option.none_or, get?, dif_pos hi]

theorem get?_putAll (m : Image) (bs : List Block) {i : Nat} (hi : i < m.size) :
    (m.putAll bs).get? i = (Block.written bs i).or (m.get? i) := by
  induction bs generalizing m with
  | nil => rfl
  | cons b bs ih =>
      rw [putAll_cons, ih (m.put b) hi, get?_put m b hi, Block.written_cons, Option.or_assoc]

/-- Blocks that lie inside and apart are all held once they are written. -/
theorem holds_putAll (h : bs.Pairwise Block.Apart) (hbs : ∀ b ∈ bs, b.stop ≤ m.size)
    (hb : b ∈ bs) : (m.putAll bs).Holds b.address b.bytes := by
  have hstop : b.stop ≤ (m.putAll bs).size := by
    rw [size_putAll]
    exact hbs b hb
  refine holds_of_written h hb hstop fun i x hx => ?_
  obtain ⟨c, hc, -, hlt⟩ := (Block.isSome_written_iff bs i).1 (by rw [hx]; rfl)
  rw [get?_putAll m bs (Nat.lt_of_lt_of_le hlt (hbs c hc)), hx, Option.some_or]

end Image

namespace Memory

/-- The memory with a block written, wherever its end is. -/
def put (m : Memory) (b : Block) : Memory :=
  { m with cells := m.cells.setAll b.address b.bytes }

variable {m : Memory} {b : Block}

theorem grows_put (m : Memory) (b : Block) : m.Grows (m.put b) :=
  .of_cells m _

theorem write?_eq_put (h : b.stop ≤ m.size) : m.write? b.address b.bytes = some (m.put b) :=
  if_pos h

theorem image_put (hm : m.Fits) (hb : b.stop ≤ m.size) : (m.put b).image = m.image.put b := by
  refine congrArg (Image.mk m.size) (funext fun i => ?_)
  have hi : (i : Nat) < Cells.capacity 32 := Nat.lt_of_lt_of_le i.isLt hm.size_le
  exact Cells.get_setAll m.cells b.bytes (Nat.le_trans hb hm.size_le) hi

end Memory

end ProgramHost
