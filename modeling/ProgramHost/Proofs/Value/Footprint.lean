import Mathlib.Data.Set.Operations
import ProgramHost.Proofs.Memory.Blocks
import ProgramHost.Proofs.Value.Decode
/-!
# What decoding looks at

`Reads m offset len` says which ranges of a memory decoding asks for: the tag, the data
that belong to it, and behind a pointer the length of a text and the text. Where the later
ranges lie depends on the bytes of the earlier ones. The footprint is what there is of
these ranges in the memory.

`Decodes.transfer` is the one step for both directions in which a memory can change. What
it stands for is kept if the bytes that were found are found again, and the read that was
outside, if there was one, is outside again.
-/

namespace ProgramHost

namespace Image

variable {m m' : Image} {offset : Nat} {bs : List UInt8}

theorem Holds.transfer (h : m.Holds offset bs) (hsize : m.size ≤ m'.size)
    (hread : ∀ i < m.size, offset ≤ i → i < offset + bs.length → m'.get? i = m.get? i) :
    m'.Holds offset bs := by
  obtain ⟨hle, hget⟩ := h
  refine ⟨Nat.le_trans hle hsize, fun i hi => ?_⟩
  rw [hread (offset + i) (by omega) (by omega) (by omega), hget i hi]

theorem get?_append_of_lt (m x : Image) {i : Nat} (hi : i < m.size) :
    (m.append x).get? i = m.get? i := by
  have hlt : i < (m.append x).size := Nat.lt_of_lt_of_le hi (Nat.le_add_right _ _)
  rw [get?, get?, dif_pos hi, dif_pos hlt]
  exact congrArg some (dif_pos hi)

theorem Holds.append (h : m.Holds offset bs) (x : Image) : (m.append x).Holds offset bs :=
  h.transfer (Nat.le_add_right _ _) fun _ hi _ _ => get?_append_of_lt m x hi

end Image

namespace Value

open Image

/-- Decoding asks for the `len` bytes from `offset`. -/
inductive Reads (m : Image) : Nat → Nat → Prop
  | tag : Reads m 1048564 4
  | number : m.HoldsWord 1048564 2 → Reads m 1048568 8
  | boolean : m.HoldsWord 1048564 3 → Reads m 1048568 4
  | pointer : m.HoldsWord 1048564 4 → Reads m 1048568 4
  | length {p : UInt32} : m.HoldsWord 1048564 4 → m.HoldsWord 1048568 p → Reads m p.toNat 4
  | text {p len : UInt32} : m.HoldsWord 1048564 4 → m.HoldsWord 1048568 p →
      m.HoldsWord p.toNat len → Reads m (p.toNat + 4) len.toNat

/-- The positions of the bytes that decoding looks at. Which they are depends on the bytes
themselves, since a pointer says where to go on and a length how far. -/
def footprint (m : Image) : Set Nat :=
  {i | i < m.size ∧ ∃ offset len, Reads m offset len ∧ offset ≤ i ∧ i < offset + len}

variable {m m' : Image} {v : Value} {offset len : Nat}

/-- A memory stands for what another one stands for if it holds what was read there, and
if the read that was outside is outside of it, too. -/
theorem Decodes.transfer (h : Decodes m v)
    (hholds : ∀ {offset len bs}, Reads m offset len → bs.length = len → m.Holds offset bs →
      m'.Holds offset bs)
    (hout : ∀ {offset len}, v = .outOfBounds offset len → m'.size < offset + len) :
    Decodes m' v := by
  have hword : ∀ {offset w}, Reads m offset 4 → m.HoldsWord offset w → m'.HoldsWord offset w :=
    fun hreads => hholds hreads (LittleEndian.length_bytes 4 _)
  cases h with
  | tagOutside => exact .tagOutside (hout rfl)
  | unassigned ht => exact .unassigned (hword .tag ht)
  | undefined ht => exact .undefined (hword .tag ht)
  | numberOutside ht => exact .numberOutside (hword .tag ht) (hout rfl)
  | number ht hbits =>
      exact .number (hword .tag ht) (hholds (.number ht) (LittleEndian.length_bytes 8 _) hbits)
  | booleanOutside ht => exact .booleanOutside (hword .tag ht) (hout rfl)
  | boolean ht hlen hbs => exact .boolean (hword .tag ht) hlen (hholds (.boolean ht) hlen hbs)
  | pointerOutside ht => exact .pointerOutside (hword .tag ht) (hout rfl)
  | lengthOutside ht hp =>
      exact .lengthOutside (hword .tag ht) (hword (.pointer ht) hp) (hout rfl)
  | textOutside ht hp hlen =>
      exact .textOutside (hword .tag ht) (hword (.pointer ht) hp) (hword (.length ht hp) hlen)
        (hout rfl)
  | text ht hp hword' hlen hbs =>
      exact .text (hword .tag ht) (hword (.pointer ht) hp) (hword (.length ht hp) hword') hlen
        (hholds (.text ht hp hword') hlen hbs)
  | function ht => exact .function (hword .tag ht)
  | invalidTag ht hlt => exact .invalidTag (hword .tag ht) hlt

theorem Decodes.size_lt (h : Decodes m (.outOfBounds offset len)) : m.size < offset + len := by
  cases h <;> assumption

section Agreement

variable (hsize : m'.size = m.size) (hagree : ∀ i ∈ footprint m, m'.get? i = m.get? i)

include hsize hagree

theorem Reads.holds_iff (h : Reads m offset len) {bs : List UInt8} (hbs : bs.length = len) :
    m'.Holds offset bs ↔ m.Holds offset bs := by
  have hread : ∀ i < m.size, offset ≤ i → i < offset + bs.length → m'.get? i = m.get? i :=
    fun i hi hle hlt => hagree i ⟨hi, offset, len, h, hle, hbs ▸ hlt⟩
  refine ⟨fun hm' => ?_, fun hm => hm.transfer (Nat.le_of_eq hsize.symm) hread⟩
  refine hm'.transfer (Nat.le_of_eq hsize) fun i hi hle hlt => ?_
  exact (hread i (hsize ▸ hi) hle hlt).symm

theorem Reads.holdsWord_iff (h : Reads m offset 4) (w : UInt32) :
    m'.HoldsWord offset w ↔ m.HoldsWord offset w :=
  h.holds_iff hsize hagree (LittleEndian.length_bytes 4 _)

/-- They are asked for the same ranges: each range is found through bytes of the ones
before it. -/
theorem reads_iff_of_agree : Reads m' offset len ↔ Reads m offset len := by
  have htag := Reads.tag.holdsWord_iff hsize hagree
  have hpointer := fun ht p => (Reads.pointer ht).holdsWord_iff hsize hagree p
  have hlength := fun p ht hp n => (@Reads.length m p ht hp).holdsWord_iff hsize hagree n
  constructor
  · intro h
    cases h with
    | tag => exact .tag
    | number ht => exact .number ((htag _).1 ht)
    | boolean ht => exact .boolean ((htag _).1 ht)
    | pointer ht => exact .pointer ((htag _).1 ht)
    | length ht hp =>
        have ht := (htag _).1 ht
        exact .length ht ((hpointer ht _).1 hp)
    | text ht hp hlen =>
        have ht := (htag _).1 ht
        have hp := (hpointer ht _).1 hp
        exact .text ht hp ((hlength _ ht hp _).1 hlen)
  · intro h
    cases h with
    | tag => exact .tag
    | number ht => exact .number ((htag _).2 ht)
    | boolean ht => exact .boolean ((htag _).2 ht)
    | pointer ht => exact .pointer ((htag _).2 ht)
    | length ht hp => exact .length ((htag _).2 ht) ((hpointer ht _).2 hp)
    | text ht hp hlen =>
        exact .text ((htag _).2 ht) ((hpointer ht _).2 hp) ((hlength _ ht hp _).2 hlen)

theorem footprint_eq_of_agree : footprint m' = footprint m := by
  ext i
  simp only [footprint, Set.mem_ofPred_eq, hsize, reads_iff_of_agree hsize hagree]

theorem Decodes.of_agree (h : Decodes m v) : Decodes m' v :=
  h.transfer (fun hreads hbs => (hreads.holds_iff hsize hagree hbs).2) fun hv => by
    subst hv
    exact hsize ▸ h.size_lt

end Agreement

/-- Decoding depends on the footprint alone: a memory of the same size with the same bytes
there has the same footprint and is decoded alike, whatever its other bytes are. What was
decoded stays when a memory grows, and a read that was outside is given again exactly as
long as the memory ends inside it. -/
theorem decoding_sees_footprint_alone (m : Image) :
    (∀ m' : Image, m'.size = m.size → (∀ i ∈ footprint m, m'.get? i = m.get? i) →
        footprint m' = footprint m ∧ decode m' = decode m) ∧
      ∀ x : Image,
        ((∀ offset len, decode m ≠ .outOfBounds offset len) →
            decode (m.append x) = decode m) ∧
          ∀ offset len, decode m = .outOfBounds offset len →
            (decode (m.append x) = .outOfBounds offset len ↔
              m.size + x.size < offset + len) := by
  obtain ⟨v, hv⟩ := exists_decodes m
  rw [hv.decode_eq]
  refine ⟨fun m' hsize hagree => ?agree, fun x => ⟨fun hinside => ?inside, ?outside⟩⟩
  case agree =>
    exact ⟨footprint_eq_of_agree hsize hagree, (hv.of_agree hsize hagree).decode_eq⟩
  case inside =>
    exact (hv.transfer (fun _ _ h => h.append x) fun h => absurd h (hinside _ _)).decode_eq
  case outside =>
    rintro offset len rfl
    refine ⟨fun h => ((decode_eq_iff _ _).1 h).size_lt, fun hlt => ?_⟩
    refine (hv.transfer (fun _ _ h => h.append x) fun h => ?_).decode_eq
    cases h
    exact hlt

/-- The blocks of a text over its own tag and pointer: the tag is the length, and the
pointer is the text. -/
def selfPointing : List Block := [.word 1048564 4, .word 1048568 1048564]

theorem holdsWord_selfPointing {m : Image} (hm : m.size = 1048572) :
    (m.putAll selfPointing).HoldsWord 1048564 4 ∧
      (m.putAll selfPointing).HoldsWord 1048568 1048564 := by
  have hapart : selfPointing.Pairwise Block.Apart := by
    simp [selfPointing, Block.Apart, Block.stop, Block.word]
  have hinside : ∀ b ∈ selfPointing, b.stop ≤ m.size := by
    simp [selfPointing, Block.stop, Block.word, hm]
  have hholds := fun b => @Image.holds_putAll m b _ hapart hinside
  exact ⟨hholds (.word 1048564 4) (by simp [selfPointing]),
    hholds (.word 1048568 1048564) (by simp [selfPointing])⟩

theorem mem_footprint_selfPointing {m : Image} (hm : m.size = 1048572) {i : Nat}
    (hi : i ∈ footprint (m.putAll selfPointing)) : 1048564 ≤ i ∧ i < 1048572 := by
  obtain ⟨htag, hpointer⟩ := holdsWord_selfPointing hm
  obtain ⟨hlt, offset, len, hreads, hle, -⟩ := hi
  rw [size_putAll, hm] at hlt
  refine ⟨?_, hlt⟩
  cases hreads with
  | length _ hp =>
      cases holdsWord_unique hp hpointer
      exact hle
  | text _ hp _ =>
      cases holdsWord_unique hp hpointer
      exact Nat.le_trans (by decide) hle
  | _ => omega

/-- A text that lies over its own tag and pointer is the same whatever the memory holds
elsewhere, and stays when the memory grows. A length past the end of the memory is missed
until the memory has all of it. -/
theorem selfPointing_is_seen_alone :
    decode ((⟨1048572, fun _ => 0xFF⟩ : Image).putAll selfPointing) =
        .text "\uFFFD\uFFFD\x0f\x00" ∧
      decode (((zeros 1048572).putAll selfPointing).append (zeros 3)) =
        .text "\uFFFD\uFFFD\x0f\x00" ∧
      decode (((zeros 1048572).putAll [.word 1048564 4, .word 1048568 1048570]).append
        (zeros 1)) = .outOfBounds 1048570 4 ∧
      decode (((zeros 1048572).putAll [.word 1048564 4, .word 1048568 1048570]).append
        (zeros 2)) ≠ .outOfBounds 1048570 4 := by
  have htext : decode ((zeros 1048572).putAll selfPointing) =
      .text "\uFFFD\uFFFD\x0f\x00" := rfl
  have hmissed : decode ((zeros 1048572).putAll [.word 1048564 4, .word 1048568 1048570]) =
      .outOfBounds 1048570 4 := rfl
  obtain ⟨halone, hgrown⟩ :=
    decoding_sees_footprint_alone ((zeros 1048572).putAll selfPointing)
  obtain ⟨-, hmiss⟩ := decoding_sees_footprint_alone
    ((zeros 1048572).putAll [.word 1048564 4, .word 1048568 1048570])
  refine ⟨?_, ?_, ?_, ?_⟩
  · refine (halone ((⟨1048572, fun _ => 0xFF⟩ : Image).putAll selfPointing) rfl ?_).2.trans htext
    intro i hi
    obtain ⟨hlow, hhigh⟩ := mem_footprint_selfPointing rfl hi
    have hsome : (Block.written selfPointing i).isSome := by
      rw [Block.isSome_written_iff]
      by_cases hword : i < 1048568
      · exact ⟨.word 1048564 4, by simp [selfPointing], hlow, hword⟩
      · exact ⟨.word 1048568 1048564, by simp [selfPointing], Nat.le_of_not_lt hword, hhigh⟩
    obtain ⟨b, hb⟩ := Option.isSome_iff_exists.1 hsome
    rw [get?_putAll _ _ hhigh, get?_putAll _ _ hhigh, hb, Option.some_or, Option.some_or]
  · exact ((hgrown (zeros 3)).1 (by simp [htext])).trans htext
  · exact ((hmiss (zeros 1)).2 _ _ hmissed).2 (by decide)
  · exact fun h => absurd (((hmiss (zeros 2)).2 _ _ hmissed).1 h) (by decide)

end Value

end ProgramHost
