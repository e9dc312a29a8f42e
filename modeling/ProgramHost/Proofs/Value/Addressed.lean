import ProgramHost.Proofs.Value.Decode
import ProgramHost.Value.Addressed
/-!
# The width of addresses does not matter

All positions of a memory have an address. So a range whose end has none is not inside, and
the checked sum refuses no range that is. The start of the bytes of a text is only asked for
after the length before it was read: it lies at most at the end of the memory, and the sum
that gives it is not saturated.
-/

namespace ProgramHost.Value

open Image

namespace Addressed

variable {w : Nat} {m : Image}

theorem toNat_ofNat (hw : 32 ≤ w) {n : Nat} (hn : n < 2 ^ 32) :
    (BitVec.ofNat w n).toNat = n :=
  (BitVec.toNat_ofNat n w).trans
    (Nat.mod_eq_of_lt (Nat.lt_of_lt_of_le hn (Nat.pow_le_pow_right Nat.two_pos hw)))

/-- Every read, wherever it is and however long, gives what it gives with natural numbers,
and is named alike where it is not inside. -/
theorem read_eq (hm : m.size < 2 ^ w) (offset len : Address w) :
    read m offset len = Value.read m offset.toNat len.toNat := by
  rw [read, Image.sliceAt?_eq hm]
  rfl

theorem readWord_eq (hw : 32 ≤ w) (hm : m.size < 2 ^ w) (offset : Address w) :
    (readWord m offset).map UInt32.toNat = readNat m offset.toNat 4 := by
  have hfour : (4 : Address w).toNat = 4 := toNat_ofNat hw (by decide)
  rw [readWord, read_eq hm, hfour, readNat]
  cases h : Value.read m offset.toNat 4 with
  | error v => rfl
  | ok bs =>
      have hlen : bs.length = 4 := Image.length_of_slice? (read_eq_ok_iff.1 h)
      have hlt : LittleEndian.value bs < UInt32.size := by
        have hvalue := LittleEndian.value_lt bs
        rwa [hlen] at hvalue
      exact congrArg Except.ok (UInt32.toNat_ofNat_of_lt' hlt)

/-- The start of a text is four behind the pointer, where that has an address. Nothing is
said of the other pointers. -/
def Exact (start : Address w → Address w) : Prop :=
  ∀ p : Address w, p.toNat + 4 < 2 ^ w → (start p).toNat = p.toNat + 4

theorem exact_textStart (hw : 32 ≤ w) : Exact (textStart (w := w)) := by
  intro p hp
  have hfour : (4 : Address w).toNat = 4 := toNat_ofNat hw (by decide)
  rw [← hfour] at hp ⊢
  exact Address.toNat_saturatingAdd hp

section

variable {start : Address w → Address w}

/-- A length that was read lies inside, so the start of the text has an address. -/
theorem toNat_start (hw : 32 ≤ w) (hm : m.size < 2 ^ w) (hstart : Exact start) {p : Address w}
    {len : UInt32} (h : readWord m p = .ok len) : (start p).toNat = p.toNat + 4 := by
  have hread : readNat m p.toNat 4 = .ok len.toNat := by
    rw [← readWord_eq hw hm, h]
    rfl
  have hinside : ¬ m.size < p.toNat + 4 := by
    intro hlt
    rw [readNat_of_outside hlt] at hread
    cases hread
  exact hstart p (by omega)

theorem readText_eq (hw : 32 ≤ w) (hm : m.size < 2 ^ w) (hstart : Exact start)
    (p : Address w) : readText start m p = Value.readText m p.toNat := by
  rw [readText, Value.readText, ← readWord_eq hw hm]
  cases h : readWord m p with
  | error v => rfl
  | ok len =>
      have hread : read m (start p) (.ofWord len) = Value.read m (p.toNat + 4) len.toNat := by
        rw [read_eq hm, toNat_start hw hm hstart h, Address.toNat_ofWord hw]
      change (read m (start p) (.ofWord len) >>= _) = (Value.read m (p.toNat + 4) len.toNat >>= _)
      rw [hread]

theorem readTagged_of_five_lt {tag : UInt32} (h : 5 < tag) :
    readTagged start m tag = .ok (.invalidTag tag) := by
  have hlt : 5 < tag.toNat := UInt32.lt_iff_toNat_lt.1 h
  unfold readTagged
  split <;> try omega
  rfl

theorem bne_zero_eq_toNat (n : UInt32) : (n != 0) = (n.toNat != 0) := by
  rw [Bool.eq_iff_iff, bne_iff_ne, bne_iff_ne, ne_eq, ne_eq, ← UInt32.toNat_inj]
  rfl

theorem readTagged_eq (hw : 32 ≤ w) (hm : m.size < 2 ^ w) (hstart : Exact start)
    (tag : UInt32) : readTagged start m tag = Value.readTagged m tag.toNat := by
  have hdata : (BitVec.ofNat w dataOffset).toNat = dataOffset := toNat_ofNat hw (by decide)
  have height : (8 : Address w).toNat = 8 := toNat_ofNat hw (by decide)
  have hword : readNat m dataOffset 4 =
      (readWord m (BitVec.ofNat w dataOffset)).map UInt32.toNat := by
    rw [readWord_eq hw hm, hdata]
  rcases tag_cases tag with rfl | rfl | rfl | rfl | rfl | rfl | hlt
  · rfl
  · rfl
  · refine Eq.trans ?_ (readTagged_number m).symm
    change (read m (BitVec.ofNat w dataOffset) 8 >>= _) = _
    rw [read_eq hm, hdata, height, readNat]
    cases Value.read m dataOffset 8 <;> rfl
  · refine Eq.trans ?_ (readTagged_boolean m).symm
    change (readWord m (BitVec.ofNat w dataOffset) >>= _) = _
    rw [hword]
    cases readWord m (BitVec.ofNat w dataOffset) with
    | error v => rfl
    | ok n => exact congrArg (fun b => Except.ok (Value.boolean b)) (bne_zero_eq_toNat n)
  · change (readWord m (BitVec.ofNat w dataOffset) >>= _) = (readNat m dataOffset 4 >>= _)
    rw [hword]
    cases readWord m (BitVec.ofNat w dataOffset) with
    | error v => rfl
    | ok p =>
        refine (readText_eq hw hm hstart (.ofWord p)).trans ?_
        rw [Address.toNat_ofWord hw]
        rfl
  · rfl
  · rw [readTagged_of_five_lt hlt, Value.readTagged_of_five_lt hlt]

theorem decodeBy_eq (hw : 32 ≤ w) (hm : m.size < 2 ^ w) (hstart : Exact start) :
    decodeBy start m = Value.decode m := by
  have htag : (BitVec.ofNat w tagOffset).toNat = tagOffset := toNat_ofNat hw (by decide)
  have hregion : decode? start m = Value.decode? m := by
    rw [decode?, Value.decode?, ← htag, ← readWord_eq hw hm, htag]
    cases readWord m (BitVec.ofNat w tagOffset) with
    | error v => rfl
    | ok tag => exact readTagged_eq hw hm hstart tag
  unfold decodeBy Value.decode
  cases h : Value.decode? m <;> simp only [hregion, h]

end

end Addressed

/-- A memory all of whose positions have an address of `w` bits is decoded with such addresses
as it is with natural numbers, and each read is named alike. Whatever is done where the start
of a text has no address, it is not seen: a pointer so great is named itself, with the length
that was not read. A length that was read is named behind its pointer or gives exactly the
bytes there, however great the end of the range would be. -/
theorem decoding_is_same_at_every_width {w : Nat} (hw : 32 ≤ w) {m : Image}
    (hm : m.size < 2 ^ w) :
    Addressed.decode w m = decode m ∧
      (∀ offset len : Address w,
        Addressed.read m offset len = read m offset.toNat len.toNat) ∧
      (∀ start : Address w → Address w, Addressed.Exact start →
        Addressed.decodeBy start m = decode m) ∧
      ∀ p : UInt32, m.HoldsWord 1048564 4 → m.HoldsWord 1048568 p →
        (m.size < p.toNat + 4 → Addressed.decode w m = .outOfBounds p.toNat 4) ∧
          ∀ n : UInt32, m.HoldsWord p.toNat n →
            (Addressed.textStart (.ofWord p : Address w)).toNat = p.toNat + 4 ∧
              (m.size < p.toNat + 4 + n.toNat →
                Addressed.decode w m = .outOfBounds (p.toNat + 4) n.toNat) ∧
              ∀ bs, bs.length = n.toNat → m.Holds (p.toNat + 4) bs →
                Addressed.decode w m = .text (String.ofList (Text.Utf8.decode bs)) := by
  have hsame : Addressed.decode w m = decode m :=
    Addressed.decodeBy_eq hw hm (Addressed.exact_textStart hw)
  refine ⟨hsame, Addressed.read_eq hm, fun start hstart => Addressed.decodeBy_eq hw hm hstart,
    fun p htag hp => ⟨fun hout => ?pointer, fun n hn => ⟨?start, fun hout => ?length,
      fun bs hlen hbs => ?bytes⟩⟩⟩
  case pointer => exact hsame.trans (Decodes.lengthOutside htag hp hout).decode_eq
  case start =>
    have hpointer := Address.toNat_ofWord hw p
    have hinside : p.toNat + 4 ≤ m.size := by
      have hle := hn.1
      rwa [LittleEndian.length_bytes] at hle
    rw [Addressed.exact_textStart hw _ (by omega), hpointer]
  case length => exact hsame.trans (Decodes.textOutside htag hp hn hout).decode_eq
  case bytes => exact hsame.trans (Decodes.text htag hp hn hlen hbs).decode_eq

/-- A text at the last pointer that there is. -/
def farPointing : Image :=
  (zeros 1048576).write 1048564 (ofList [4, 0, 0, 0, 0xFF, 0xFF, 0xFF, 0xFF])

/-- A text of the greatest length, at the end of the memory. -/
def overlong : Image :=
  (zeros 1048576).write 1048564
    (ofList [4, 0, 0, 0, 0xFC, 0xFF, 0x0F, 0, 0xFF, 0xFF, 0xFF, 0xFF])

/-- With addresses of 32 bits the pointer has no address four behind it, and the text has no
end. Both are named as they are with wider addresses, and it makes no difference that the
start of the text is saturated. -/
theorem far_texts_are_named :
    (farPointing.size < 2 ^ 32 ∧ overlong.size < 2 ^ 32) ∧
      Addressed.decode 32 farPointing = .outOfBounds 4294967295 4 ∧
      Addressed.decodeBy (fun p : Address 32 => p + 4) farPointing =
        .outOfBounds 4294967295 4 ∧
      Addressed.decode 32 overlong = .outOfBounds 1048576 4294967295 ∧
      Addressed.decode 64 overlong = .outOfBounds 1048576 4294967295 := by
  have hfar : decode farPointing = .outOfBounds 4294967295 4 := rfl
  have hlong : decode overlong = .outOfBounds 1048576 4294967295 := rfl
  have hsize : farPointing.size < 2 ^ 32 ∧ overlong.size < 2 ^ 32 := by decide
  obtain ⟨hpointer, -, hwrapped, -⟩ := decoding_is_same_at_every_width (by decide) hsize.1
  have hlength := decoding_is_same_at_every_width (by decide) hsize.2
  have hwide := decoding_is_same_at_every_width (w := 64) (m := overlong) (by decide) (by decide)
  exact ⟨hsize, hpointer.trans hfar,
    (hwrapped _ fun p hp => Address.toNat_add_of_lt hp).trans hfar,
    hlength.1.trans hlong, hwide.1.trans hlong⟩

end ProgramHost.Value
