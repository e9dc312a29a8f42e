import ProgramHost.Memory.Cells
import ProgramHost.Memory.Image
import ProgramHost.Memory.LittleEndian
/-!
# Paged memory

The memory of a running program is a whole number of pages and can grow, page by
page, up to its limit. An access is refused unless it lies wholly inside; a
refused growth changes nothing.
-/

namespace ProgramHost

/-- The memory of a running program. There are cells for all addresses of 32 bits, and the number
of pages says how many of them an access can reach. The others are zero in fresh memory and no
access changes them, so pages that are added hold zeros. -/
structure Memory where
  pages : Nat
  limit : Nat
  cells : Cells 32

namespace Memory

def pageSize : Nat := 65536

def mostPages : Nat := 65536

def fresh (pages limit : Nat) : Memory := ⟨pages, limit, .uniform 0⟩

def size (m : Memory) : Nat := m.pages * pageSize

def image (m : Memory) : Image := ⟨m.size, fun i => m.cells.get i⟩

def read? (m : Memory) (address len : Nat) : Option (List UInt8) :=
  m.image.slice? address len

def load? (m : Memory) (address len : Nat) : Option Nat :=
  (m.read? address len).map LittleEndian.value

def write? (m : Memory) (address : Nat) (bs : List UInt8) : Option Memory :=
  if address + bs.length ≤ m.size then some { m with cells := m.cells.setAll address bs }
  else none

def store? (m : Memory) (address len value : Nat) : Option Memory :=
  m.write? address (LittleEndian.bytes len value)

def fill? (m : Memory) (address len : Nat) (b : UInt8) : Option Memory :=
  if address + len ≤ m.size then
    some { m with cells := m.cells.fill address (address + len) b }
  else none

/-- Copies `len` bytes; the two ranges may overlap. -/
def copy? (m : Memory) (target source len : Nat) : Option Memory :=
  if target + len ≤ m.size ∧ source + len ≤ m.size then
    some { m with cells := m.cells.copy target source len }
  else none

/-- Adds pages, unless the limit forbids it. -/
def grow? (m : Memory) (n : Nat) : Option Memory :=
  if m.pages + n ≤ m.limit then some { m with pages := m.pages + n } else none

@[simp] theorem size_image (m : Memory) : m.image.size = m.size := rfl

@[simp] theorem pages_fresh (pages limit : Nat) : (fresh pages limit).pages = pages := rfl

theorem pages_write? {m n : Memory} {address : Nat} {bs : List UInt8}
    (h : m.write? address bs = some n) : n.pages = m.pages := by
  simp only [write?] at h
  split at h
  · injection h with h
    rw [← h]
  · simp at h

theorem pages_grow? {m n : Memory} {k : Nat} (h : m.grow? k = some n) :
    n.pages = m.pages + k ∧ n.pages ≤ m.limit := by
  simp only [grow?] at h
  split at h
  · injection h with h
    rw [← h]
    exact ⟨rfl, ‹_›⟩
  · simp at h

end Memory

end ProgramHost
