import ProgramHost.Memory.Paged
/-!
# How memories change

Accesses change bytes and growth adds pages. Neither takes pages away or moves the
limit, and `m.Grows m'` says just this of a memory and a later one. If no byte was
changed either, the later memory extends the first: `m.Extends m'`.

A memory fits if its pages and its limit can be addressed. Growing keeps that.
-/

namespace ProgramHost.Memory

/-- The later memory has the same limit and at least as many pages, and the limit holds
for the new ones. -/
structure Grows (m m' : Memory) : Prop where
  limit_eq : m'.limit = m.limit
  le_pages : m.pages ≤ m'.pages
  pages_le : m'.pages ≤ max m.pages m.limit

/-- The later memory has grown and has the same bytes. -/
structure Extends (m m' : Memory) : Prop extends Grows m m' where
  cells_eq : m'.cells = m.cells

/-- All bytes of the memory have an address of 32 bits, and the limit keeps it so. -/
structure Fits (m : Memory) : Prop where
  pages_le : m.pages ≤ mostPages
  limit_le : m.limit ≤ mostPages

theorem get?_image (m : Memory) (i : Nat) :
    m.image.get? i = if i < m.size then some (m.cells.get i) else none := by
  by_cases h : i < m.size
  · rw [if_pos h]
    exact dif_pos h
  · rw [if_neg h]
    exact dif_neg h

theorem capacity_eq_mostPages : Cells.capacity 32 = mostPages * pageSize := by
  rw [Cells.capacity_eq_pow]
  rfl

variable {m m' m'' : Memory}

namespace Grows

theorem refl (m : Memory) : m.Grows m :=
  ⟨rfl, Nat.le_refl _, Nat.le_max_left _ _⟩

theorem trans (h : m.Grows m') (h' : m'.Grows m'') : m.Grows m'' := by
  have hle := h'.pages_le
  rw [h.limit_eq] at hle
  refine ⟨h'.limit_eq.trans h.limit_eq, Nat.le_trans h.le_pages h'.le_pages, ?_⟩
  exact Nat.le_trans hle (Nat.max_le.2 ⟨h.pages_le, Nat.le_max_right _ _⟩)

theorem of_cells (m : Memory) (c : Cells 32) : m.Grows { m with cells := c } :=
  ⟨rfl, Nat.le_refl _, Nat.le_max_left _ _⟩

theorem of_write? {address : Nat} {bs : List UInt8} (h : m.write? address bs = some m') :
    m.Grows m' := by
  unfold write? at h
  split at h
  · obtain rfl := Option.some.inj h
    exact of_cells m _
  · cases h

theorem of_store? {address len value : Nat} (h : m.store? address len value = some m') :
    m.Grows m' :=
  of_write? h

theorem of_fill? {address len : Nat} {b : UInt8} (h : m.fill? address len b = some m') :
    m.Grows m' := by
  unfold fill? at h
  split at h
  · obtain rfl := Option.some.inj h
    exact of_cells m _
  · cases h

theorem of_copy? {target source len : Nat} (h : m.copy? target source len = some m') :
    m.Grows m' := by
  unfold copy? at h
  split at h
  · obtain rfl := Option.some.inj h
    exact of_cells m _
  · cases h

theorem size_le (h : m.Grows m') : m.size ≤ m'.size :=
  Nat.mul_le_mul_right pageSize h.le_pages

theorem fits (h : m.Grows m') (hm : m.Fits) : m'.Fits where
  pages_le := Nat.le_trans h.pages_le (Nat.max_le.2 ⟨hm.pages_le, hm.limit_le⟩)
  limit_le := h.limit_eq ▸ hm.limit_le

end Grows

namespace Extends

theorem refl (m : Memory) : m.Extends m :=
  ⟨.refl m, rfl⟩

theorem trans (h : m.Extends m') (h' : m'.Extends m'') : m.Extends m'' :=
  ⟨h.toGrows.trans h'.toGrows, h'.cells_eq.trans h.cells_eq⟩

theorem of_grow? {n : Nat} (h : m.grow? n = some m') : m.Extends m' := by
  unfold grow? at h
  split at h
  · next hle =>
      obtain rfl := Option.some.inj h
      exact ⟨⟨rfl, Nat.le_add_right _ _, Nat.le_trans hle (Nat.le_max_right _ _)⟩, rfl⟩
  · cases h

theorem get?_eq (h : m.Extends m') {i : Nat} (hi : i < m.size) :
    m'.image.get? i = m.image.get? i := by
  have hi' : i < m'.size := Nat.lt_of_lt_of_le hi h.size_le
  rw [get?_image, get?_image, if_pos hi, if_pos hi', h.cells_eq]

end Extends

theorem Fits.size_le (h : m.Fits) : m.size ≤ Cells.capacity 32 := by
  rw [capacity_eq_mostPages]
  exact Nat.mul_le_mul_right pageSize h.pages_le

end ProgramHost.Memory
