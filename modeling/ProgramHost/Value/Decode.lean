import ProgramHost.Memory.Image
import ProgramHost.Memory.LittleEndian
import ProgramHost.Text.Utf8
import ProgramHost.Value.Basic
/-!
# Reading a value out of memory

The value region ends at `2^20`. It holds a tag of four bytes and eight bytes of
data. A number fills the data, a truth value its first four bytes, and a text is
a pointer in its first four bytes to a length of four bytes and that many bytes.

`decode` is total. The first read that does not lie wholly inside the memory
decides the answer, and the answer names that read.
-/

namespace ProgramHost.Value

def regionEnd : Nat := 1048576

def tagOffset : Nat := regionEnd - 12

def dataOffset : Nat := regionEnd - 8

/-- Reads `len` bytes; a read that is not wholly inside gives the value that
names it. -/
def read (m : Image) (offset len : Nat) : Except Value (List UInt8) :=
  match m.slice? offset len with
  | some bs => .ok bs
  | none => .error (.outOfBounds offset len)

def readNat (m : Image) (offset len : Nat) : Except Value Nat :=
  (read m offset len).map LittleEndian.value

def readText (m : Image) (pointer : Nat) : Except Value Value := do
  let len ← readNat m pointer 4
  let bs ← read m (pointer + 4) len
  return .text (String.ofList (Text.Utf8.decode bs))

def readTagged (m : Image) (tag : Nat) : Except Value Value :=
  match tag with
  | 0 => .ok .unassigned
  | 1 => .ok .undefined
  | 2 => do return .number (UInt64.ofNat (← readNat m dataOffset 8))
  | 3 => do return .boolean ((← readNat m dataOffset 4) != 0)
  | 4 => do readText m (← readNat m dataOffset 4)
  | 5 => .ok .function
  | tag => .ok (.invalidTag (UInt32.ofNat tag))

/-- Reads the value region, or names the first read that was not inside. -/
def decode? (m : Image) : Except Value Value := do
  readTagged m (← readNat m tagOffset 4)

def decode (m : Image) : Value :=
  match decode? m with
  | .ok v => v
  | .error v => v

theorem read_eq_ok_iff {m : Image} {offset len : Nat} {bs : List UInt8} :
    read m offset len = .ok bs ↔ m.slice? offset len = some bs := by
  unfold read
  split <;> simp_all

theorem read_eq_error_iff {m : Image} {offset len : Nat} {v : Value} :
    read m offset len = .error v ↔
      m.size < offset + len ∧ v = .outOfBounds offset len := by
  unfold read
  split
  · next bs h =>
      have : ¬ m.size < offset + len := by
        rw [← Image.slice?_eq_none_iff, h]
        simp
      simp [this]
  · next h =>
      rw [Image.slice?_eq_none_iff] at h
      simp [h, eq_comm]

end ProgramHost.Value
