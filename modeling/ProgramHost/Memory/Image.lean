/-!
# Byte sequences

An image is a finite byte sequence, given by its length and the byte at each
position. It is the view of a memory that reading needs: a memory that stores
its bytes sparsely has an image without listing them.
-/

namespace ProgramHost

/-- A finite byte sequence. There is a byte at each position below the size and at no other, so
what is said of an image never depends on how its bytes are stored. -/
structure Image where
  size : Nat
  byte : Fin size → UInt8

namespace Image

def get? (m : Image) (i : Nat) : Option UInt8 :=
  if h : i < m.size then some (m.byte ⟨i, h⟩) else none

/-- The `len` bytes from `offset`, if all of them lie inside. -/
def slice? (m : Image) (offset len : Nat) : Option (List UInt8) :=
  if h : offset + len ≤ m.size then
    some (List.ofFn fun k : Fin len => m.byte ⟨offset + k, by omega⟩)
  else none

def ofArray (a : Array UInt8) : Image :=
  ⟨a.size, fun i => a[i]⟩

def ofList (l : List UInt8) : Image :=
  ofArray l.toArray

def toList (m : Image) : List UInt8 :=
  List.ofFn m.byte

def zeros (n : Nat) : Image :=
  ⟨n, fun _ => 0⟩

def resize (m : Image) (n : Nat) : Image :=
  ⟨n, fun i => if h : i < m.size then m.byte ⟨i, h⟩ else 0⟩

def append (m x : Image) : Image :=
  ⟨m.size + x.size, fun i =>
    if h : i < m.size then m.byte ⟨i, h⟩ else x.byte ⟨i - m.size, by omega⟩⟩

def repeated (m : Image) (n : Nat) : Image :=
  ⟨m.size * n, fun i =>
    m.byte ⟨i % m.size, Nat.mod_lt _ (Nat.pos_of_mul_pos_right (Nat.zero_lt_of_lt i.2))⟩⟩

/-- The sequence with a block written over it from `offset`. What would lie past
the end is dropped. -/
def write (m : Image) (offset : Nat) (block : Image) : Image :=
  ⟨m.size, fun i =>
    if h : offset ≤ i ∧ i - offset < block.size then block.byte ⟨i - offset, h.2⟩
    else m.byte i⟩

theorem slice?_eq_none_iff (m : Image) (offset len : Nat) :
    m.slice? offset len = none ↔ m.size < offset + len := by
  simp [slice?]

theorem length_of_slice? {m : Image} {offset len : Nat} {bs : List UInt8}
    (h : m.slice? offset len = some bs) : bs.length = len := by
  simp only [slice?] at h
  split at h
  · injection h with h
    simp [← h]
  · simp at h

@[simp] theorem size_write (m : Image) (offset : Nat) (block : Image) :
    (m.write offset block).size = m.size := rfl

@[simp] theorem size_append (m x : Image) :
    (m.append x).size = m.size + x.size := rfl

@[simp] theorem size_resize (m : Image) (n : Nat) : (m.resize n).size = n := rfl

end Image

end ProgramHost
