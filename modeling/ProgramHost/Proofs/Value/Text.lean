import ProgramHost.Proofs.Text.Segments
import ProgramHost.Proofs.Value.Encode
/-!
# The text of a payload

The payload of a memory that stands for a text is any sequence of bytes, well formed or
not. The text has one character for each segment of the payload, so it says of each byte
what became of it. It is written again with the bytes of the payload only if these were
well formed; but it is read again as it is.
-/

namespace ProgramHost.Value

open Text.Utf8

def textOf (bs : List UInt8) : String := String.ofList (Text.Utf8.decode bs)

/-- The memory holds the tag of a text, a pointer, and there a length and as many bytes. -/
def HoldsPayload (m : Image) (bs : List UInt8) : Prop :=
  ∃ p len : UInt32, m.HoldsWord 1048564 4 ∧ m.HoldsWord 1048568 p ∧ m.HoldsWord p.toNat len ∧
    bs.length = len.toNat ∧ m.Holds (p.toNat + 4) bs

theorem holdsPayload_putAll {m : Image} {bs : List UInt8} {p len : UInt32}
    (hlen : bs.length = len.toNat) (hm : 1048576 ≤ m.size)
    (hsize : p.toNat + 4 + len.toNat ≤ m.size)
    (hapart : p.toNat + 4 + len.toNat ≤ 1048564 ∨ 1048572 ≤ p.toNat) :
    HoldsPayload (m.putAll [.word 1048564 4, .word 1048568 p,
      ⟨p.toNat, LittleEndian.bytes 4 len.toNat ++ bs⟩]) bs := by
  have hpairwise : [Block.word 1048564 4, .word 1048568 p,
      ⟨p.toNat, LittleEndian.bytes 4 len.toNat ++ bs⟩].Pairwise Block.Apart := by
    simp [Block.Apart, Block.stop, Block.word]
    omega
  have hinside : ∀ b ∈ [Block.word 1048564 4, .word 1048568 p,
      ⟨p.toNat, LittleEndian.bytes 4 len.toNat ++ bs⟩], b.stop ≤ m.size := by
    simp [Block.stop, Block.word]
    omega
  have hholds := fun b => @Image.holds_putAll m b _ hpairwise hinside
  simp only [List.forall_mem_cons] at hholds
  obtain ⟨htag, hpointer, htext, -⟩ := hholds
  obtain ⟨hword, hbytes⟩ := (Image.holds_append_iff _ _ _ _).1 htext
  rw [LittleEndian.length_bytes] at hbytes
  exact ⟨p, len, htag, hpointer, hword, hlen, hbytes⟩

theorem HoldsPayload.decode_eq {m : Image} {bs : List UInt8} (h : HoldsPayload m bs) :
    decode m = .text (textOf bs) := by
  obtain ⟨p, len, htag, hpointer, hword, hlen, hbytes⟩ := h
  exact (Decodes.text htag hpointer hword hlen hbytes).decode_eq

/-- The text of a payload has the characters of its segments. There is one way to divide
the payload into segments, and each byte is in one of them. The text is written with the
bytes of the payload exactly if they are well formed, and is read again as it is. Bytes
that do not begin inside a sequence are read apart from what is before them. -/
theorem payload_is_read_by_segments (bs : List UInt8) :
    (∃ ss, Segmented bs ss ∧ (∀ ss', Segmented bs ss' → ss' = ss) ∧
        ss.flatMap Segment.bytes = bs ∧ textOf bs = String.ofList (ss.map Segment.char)) ∧
      (∀ m, HoldsPayload m bs → decode m = .text (textOf bs)) ∧
      (encode (textOf bs).toList = bs ↔ bs.toByteArray.IsValidUTF8) ∧
      textOf (encode (textOf bs).toList) = textOf bs ∧
      ∀ as, (∀ b ∈ bs.head?, ¬ (0x80 ≤ b ∧ b ≤ 0xBF)) →
        textOf (as ++ bs) = textOf as ++ textOf bs := by
  refine ⟨?segments, fun m hm => hm.decode_eq, ?valid, ?again, ?parts⟩
  case segments =>
    obtain ⟨ss, hss, hread⟩ := exists_segmented bs
    refine ⟨ss, hss, fun ss' hss' => hss'.unique hss, hss.flatMap_bytes, ?_⟩
    rw [textOf, hread]
  case valid =>
    rw [textOf, String.toList_ofList]
    exact encode_decode_eq_iff bs
  case again => rw [textOf, textOf, String.toList_ofList, decode_encode]
  case parts =>
    intro as hbs
    rw [textOf, decode_append as hbs, String.ofList_append]
    rfl

/-- A payload with a surrogate, a character that is cut off, and a byte that is never
used. -/
def spoiled : List UInt8 :=
  [0x6E, 0xC3, 0xA9, 0xED, 0xA0, 0x80, 0xF0, 0x9F, 0x98, 0xC0, 0x21]

theorem spoiled_is_read :
    (∃ ss, Segmented spoiled ss ∧
        ss.map Segment.char = "né\uFFFD\uFFFD\uFFFD\uFFFD\uFFFD!".toList) ∧
      decode ((⟨1048600, fun _ => 0xFF⟩ : Image).putAll
        [.word 1048564 4, .word 1048568 1048572,
          ⟨1048572, LittleEndian.bytes 4 11 ++ spoiled⟩]) =
        .text "né\uFFFD\uFFFD\uFFFD\uFFFD\uFFFD!" ∧
      textOf ([0xE2, 0x82] ++ spoiled) = "\uFFFDné\uFFFD\uFFFD\uFFFD\uFFFD\uFFFD!" := by
  obtain ⟨⟨ss, hss, -, -, hchars⟩, hdecode, -, -, happend⟩ := payload_is_read_by_segments spoiled
  have hholds := @holdsPayload_putAll ⟨1048600, fun _ => 0xFF⟩ spoiled 1048572 11 rfl
    (by decide) (by decide) (by decide)
  have htext : textOf spoiled = "né\uFFFD\uFFFD\uFFFD\uFFFD\uFFFD!" := rfl
  have hfirst : ∀ b ∈ spoiled.head?, ¬ (0x80 ≤ b ∧ b ≤ 0xBF) := by
    rintro b ⟨⟩
    decide
  refine ⟨⟨ss, hss, ?_⟩, (hdecode _ hholds).trans (congrArg _ htext), ?_⟩
  · rw [← htext, hchars, String.toList_ofList]
  · rw [happend [0xE2, 0x82] hfirst, htext]
    rfl

end ProgramHost.Value
