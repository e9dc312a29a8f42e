import Mathlib.Algebra.Group.Nat.Defs
import ProgramHost.Memory.Image
/-!
# Addresses of a fixed width

A machine keeps addresses and lengths in words of `w` bits, and a sum of two of them may
need more. A checked sum is then no address, and a saturated sum is the last one. A range is
given by its first address and its length, and its end is a checked sum: a range whose end
is no address is not inside a memory.
-/

namespace ProgramHost

/-- An address or a length of `w` bits. -/
abbrev Address (w : Nat) : Type := BitVec w

namespace Address

variable {w : Nat}

/-- The address that a word of 32 bits gives. Bits for which there is no room are lost. -/
def ofWord (n : UInt32) : Address w := n.toBitVec.setWidth w

def checkedAdd? (a b : Address w) : Option (Address w) :=
  if a.uaddOverflow b then none else some (a + b)

def saturatingAdd (a b : Address w) : Address w :=
  if a.uaddOverflow b then BitVec.allOnes w else a + b

theorem uaddOverflow_iff {a b : Address w} :
    a.uaddOverflow b = true ↔ 2 ^ w ≤ a.toNat + b.toNat :=
  decide_eq_true_iff

theorem toNat_add_of_lt {a b : Address w} (h : a.toNat + b.toNat < 2 ^ w) :
    (a + b).toNat = a.toNat + b.toNat := by
  rw [BitVec.toNat_add, Nat.mod_eq_of_lt h]

theorem toNat_saturatingAdd {a b : Address w} (h : a.toNat + b.toNat < 2 ^ w) :
    (a.saturatingAdd b).toNat = a.toNat + b.toNat := by
  rw [saturatingAdd, if_neg (mt uaddOverflow_iff.1 (Nat.not_le.2 h)), toNat_add_of_lt h]

theorem toNat_ofWord (hw : 32 ≤ w) (n : UInt32) : (ofWord n : Address w).toNat = n.toNat := by
  have hlt : n.toNat < 2 ^ w :=
    Nat.lt_of_lt_of_le n.toNat_lt (Nat.pow_le_pow_right Nat.two_pos hw)
  rw [ofWord, BitVec.toNat_setWidth, UInt32.toNat_toBitVec, Nat.mod_eq_of_lt hlt]

end Address

namespace Image

variable {w : Nat}

def range? (m : Image) (start stop : Nat) : Option (List UInt8) :=
  if start ≤ stop then m.slice? start (stop - start) else none

/-- The `len` bytes from `offset`, with the end of the range as a checked sum. -/
def sliceAt? (m : Image) (offset len : Address w) : Option (List UInt8) :=
  (offset.checkedAdd? len).bind fun stop => m.range? offset.toNat stop.toNat

/-- In a memory all of whose positions have an address, the check is exact: a range whose end
is no address is not inside, and no other range is taken in its place. -/
theorem sliceAt?_eq {m : Image} (hm : m.size < 2 ^ w) (offset len : Address w) :
    m.sliceAt? offset len = m.slice? offset.toNat len.toNat := by
  by_cases h : offset.toNat + len.toNat < 2 ^ w
  · rw [sliceAt?, Address.checkedAdd?, if_neg (mt Address.uaddOverflow_iff.1 (Nat.not_le.2 h)),
      Option.bind_some, Address.toNat_add_of_lt h, range?, if_pos (Nat.le_add_right _ _),
      Nat.add_sub_cancel_left]
  · have hle : 2 ^ w ≤ offset.toNat + len.toNat := Nat.le_of_not_lt h
    rw [sliceAt?, Address.checkedAdd?, if_pos (Address.uaddOverflow_iff.2 hle),
      Option.bind_none, (slice?_eq_none_iff m _ _).2 (Nat.lt_of_lt_of_le hm hle)]

end Image

end ProgramHost
