import ProgramHost.Memory.Image
import ProgramHost.Memory.LittleEndian
/-!
# Bytes at an address

`m.Holds offset bs` says that the bytes `bs` lie one after the other in the image `m`
from `offset` on, all of them inside. A slice gives what the image holds there, and a
word is held as its four bytes, the least significant first.
-/

namespace ProgramHost.Image

def Holds (m : Image) (offset : Nat) (bs : List UInt8) : Prop :=
  offset + bs.length ≤ m.size ∧ ∀ i < bs.length, m.get? (offset + i) = bs[i]?

/-- The word lies in the image, its least significant byte first. -/
def HoldsWord (m : Image) (offset : Nat) (w : UInt32) : Prop :=
  m.Holds offset (LittleEndian.bytes 4 w.toNat)

theorem getElem?_of_slice? {m : Image} {offset len : Nat} {bs : List UInt8}
    (h : m.slice? offset len = some bs) {i : Nat} (hi : i < len) :
    bs[i]? = m.get? (offset + i) := by
  unfold slice? at h
  split at h
  · next hle =>
      obtain rfl := Option.some.inj h
      rw [get?, dif_pos (by omega), List.getElem?_ofFn, dif_pos hi]
  · cases h

theorem slice?_eq_some_iff (m : Image) (offset len : Nat) (bs : List UInt8) :
    m.slice? offset len = some bs ↔ bs.length = len ∧ m.Holds offset bs := by
  constructor
  · intro h
    obtain rfl := length_of_slice? h
    have hle : ¬ m.size < offset + bs.length := by
      rw [← slice?_eq_none_iff, h]
      simp
    exact ⟨rfl, by omega, fun i hi => (getElem?_of_slice? h hi).symm⟩
  · rintro ⟨rfl, hle, hget⟩
    cases hs : m.slice? offset bs.length with
    | none =>
        rw [slice?_eq_none_iff] at hs
        omega
    | some cs =>
        have hlen := length_of_slice? hs
        refine congrArg some (List.ext_getElem? fun i => ?_)
        by_cases hi : i < bs.length
        · rw [getElem?_of_slice? hs hi, hget i hi]
        · rw [List.getElem?_eq_none (by omega), List.getElem?_eq_none (by omega)]

theorem holds_append_iff (m : Image) (offset : Nat) (bs cs : List UInt8) :
    m.Holds offset (bs ++ cs) ↔ m.Holds offset bs ∧ m.Holds (offset + bs.length) cs := by
  unfold Holds
  rw [List.length_append]
  constructor
  · rintro ⟨hle, hget⟩
    refine ⟨⟨by omega, fun i hi => ?_⟩, ⟨by omega, fun i hi => ?_⟩⟩
    · rw [hget i (by omega), List.getElem?_append_left hi]
    · have hright := hget (bs.length + i) (by omega)
      rw [List.getElem?_append_right (Nat.le_add_right _ _), Nat.add_sub_cancel_left] at hright
      rw [Nat.add_assoc, hright]
  · rintro ⟨⟨-, hleft⟩, hle, hright⟩
    refine ⟨by omega, fun i hi => ?_⟩
    by_cases hlt : i < bs.length
    · rw [hleft i hlt, List.getElem?_append_left hlt]
    · have hget := hright (i - bs.length) (by omega)
      rw [List.getElem?_append_right (Nat.le_of_not_lt hlt), ← hget]
      congr 1
      omega

theorem exists_holds {m : Image} {offset len : Nat} (h : offset + len ≤ m.size) :
    ∃ bs, bs.length = len ∧ m.Holds offset bs := by
  cases hs : m.slice? offset len with
  | none =>
      rw [slice?_eq_none_iff] at hs
      omega
  | some bs => exact ⟨bs, (m.slice?_eq_some_iff offset len bs).1 hs⟩

theorem exists_holds_bytes {m : Image} {offset width : Nat} (h : offset + width ≤ m.size) :
    ∃ n < LittleEndian.span width, m.Holds offset (LittleEndian.bytes width n) := by
  obtain ⟨bs, rfl, hbs⟩ := exists_holds h
  refine ⟨LittleEndian.value bs, LittleEndian.value_lt bs, ?_⟩
  rw [LittleEndian.bytes_value]
  exact hbs

theorem exists_holdsWord {m : Image} {offset : Nat} (h : offset + 4 ≤ m.size) :
    ∃ w, m.HoldsWord offset w := by
  obtain ⟨n, hn, hbs⟩ := exists_holds_bytes h
  refine ⟨UInt32.ofNat n, ?_⟩
  rw [HoldsWord, UInt32.toNat_ofNat_of_lt' hn]
  exact hbs

end ProgramHost.Image
