import ProgramHost.Proofs.Memory.Blocks
import ProgramHost.Proofs.Text.Utf8
import ProgramHost.Proofs.Value.Decode
/-!
# How a value is laid down

`Encoded size v bs` says that the blocks `bs` are an encoding of the value `v` in a
memory of that size: the tag, the data that belong to it, and for a text its length and
its bytes, wherever they do not get in the way of the tag and of the pointer. The blocks
are apart, and a memory that holds them stands for the value. So a value that is written
into a memory is decoded again, whatever else the memory holds.
-/

namespace ProgramHost.Value

/-- The blocks are an encoding of the value. Any word but zero is true, and a text can
lie anywhere inside if it does not meet the tag and the pointer. -/
inductive Encoded (size : Nat) : Value → List Block → Prop
  | unassigned : Encoded size .unassigned [.word 1048564 0]
  | undefined : Encoded size .undefined [.word 1048564 1]
  | number (bits : UInt64) :
      Encoded size (.number bits)
        [.word 1048564 2, ⟨1048568, LittleEndian.bytes 8 bits.toNat⟩]
  | boolean (w : UInt32) :
      Encoded size (.boolean (w != 0)) [.word 1048564 3, .word 1048568 w]
  | text {s : String} {p len : UInt32} :
      (Text.Utf8.encode s.toList).length = len.toNat → p.toNat + 4 + len.toNat ≤ size →
        (p.toNat + 4 + len.toNat ≤ 1048564 ∨ 1048572 ≤ p.toNat) →
        Encoded size (.text s)
          [.word 1048564 4, .word 1048568 p,
            ⟨p.toNat, LittleEndian.bytes 4 len.toNat ++ Text.Utf8.encode s.toList⟩]
  | function : Encoded size .function [.word 1048564 5]
  | invalidTag {t : UInt32} : 5 < t → Encoded size (.invalidTag t) [.word 1048564 t]

theorem bne_zero_eq (w : UInt32) :
    (w != 0) = decide (∃ b ∈ LittleEndian.bytes 4 w.toNat, b ≠ 0) := by
  have hvalue : LittleEndian.value (LittleEndian.bytes 4 w.toNat) = w.toNat := by
    rw [LittleEndian.value_bytes]
    exact Nat.mod_eq_of_lt w.toNat_lt
  have hzero := LittleEndian.value_eq_zero_iff (LittleEndian.bytes 4 w.toNat)
  rw [hvalue] at hzero
  have hw : w = 0 ↔ w.toNat = 0 := by
    rw [← UInt32.toNat_inj]
    rfl
  rw [Bool.eq_iff_iff, bne_iff_ne, decide_eq_true_iff, ne_eq, hw, hzero]
  simp

namespace Encoded

variable {size : Nat} {v : Value} {bs : List Block}

theorem pairwise_apart (h : Encoded size v bs) : bs.Pairwise Block.Apart := by
  cases h <;> simp [Block.Apart, Block.stop, Block.word]
  omega

theorem stop_le (h : Encoded size v bs) (hsize : 1048576 ≤ size) :
    ∀ b ∈ bs, b.stop ≤ size := by
  cases h <;> simp [Block.stop, Block.word] <;> omega

/-- A memory that holds an encoding of a value stands for the value. -/
theorem decodes {m : Image} (h : Encoded size v bs)
    (hm : ∀ b ∈ bs, m.Holds b.address b.bytes) : Decodes m v := by
  cases h with
  | unassigned => exact .unassigned (hm _ List.mem_cons_self)
  | undefined => exact .undefined (hm _ List.mem_cons_self)
  | number bits =>
      simp only [List.forall_mem_cons] at hm
      obtain ⟨htag, hdata, -⟩ := hm
      exact .number htag hdata
  | boolean w =>
      simp only [List.forall_mem_cons] at hm
      obtain ⟨htag, hdata, -⟩ := hm
      rw [bne_zero_eq]
      exact .boolean htag (LittleEndian.length_bytes 4 _) hdata
  | @text s p len hlen hsize hapart =>
      simp only [List.forall_mem_cons] at hm
      obtain ⟨htag, hpointer, htext, -⟩ := hm
      obtain ⟨hword, hbytes⟩ := (Image.holds_append_iff _ _ _ _).1 htext
      rw [LittleEndian.length_bytes] at hbytes
      have hdecodes := Decodes.text htag hpointer hword hlen hbytes
      rw [Text.Utf8.decode_encode, String.ofList_toList] at hdecodes
      exact hdecodes
  | function => exact .function (hm _ List.mem_cons_self)
  | invalidTag ht => exact .invalidTag (hm _ List.mem_cons_self) ht

end Encoded

/-- A value whose encoding is written into a memory with room for the value region is
decoded again. The blocks can be written in any order, and the rest of the memory is
arbitrary and stays as it was. -/
theorem decode_returns_written_value {m : Image} {v : Value} {bs cs : List Block}
    (hm : 1048576 ≤ m.size) (h : Encoded m.size v bs) (hcs : cs.Perm bs) :
    decode (m.putAll cs) = v ∧ (m.putAll cs).size = m.size ∧
      ∀ i < m.size, (∀ b ∈ bs, ¬ (b.address ≤ i ∧ i < b.stop)) →
        (m.putAll cs).get? i = m.get? i := by
  have hapart : cs.Pairwise Block.Apart :=
    hcs.symm.pairwise h.pairwise_apart Block.Apart.symm
  have hinside : ∀ b ∈ cs, b.stop ≤ m.size := fun b hb =>
    h.stop_le hm b (hcs.mem_iff.1 hb)
  refine ⟨?decoded, Image.size_putAll m cs, ?rest⟩
  case decoded =>
    have hholds : ∀ b ∈ bs, (m.putAll cs).Holds b.address b.bytes := fun b hb =>
      Image.holds_putAll hapart hinside (hcs.mem_iff.2 hb)
    exact (h.decodes hholds).decode_eq
  case rest =>
    intro i hi hbs
    have hnone : Block.written cs i = none :=
      (Block.written_eq_none_iff cs i).2 fun b hb => hbs b (hcs.mem_iff.1 hb)
    rw [Image.get?_putAll m cs hi, hnone, Option.none_or]

/-- A text between the pointer to it and the end of the memory, written before both the
pointer and the tag. -/
theorem text_after_pointer_is_decoded :
    decode ((⟨1048579, fun _ => 0xFF⟩ : Image).putAll
      [⟨1048572, LittleEndian.bytes 4 3 ++ Text.Utf8.encode "né".toList⟩,
        .word 1048564 4, .word 1048568 1048572]) = .text "né" := by
  have htext := @Encoded.text 1048579 "né" 1048572 3 rfl (by decide) (by decide)
  exact (decode_returns_written_value (by decide) htext (@List.perm_append_comm _ [_] [_, _])).1

end ProgramHost.Value
