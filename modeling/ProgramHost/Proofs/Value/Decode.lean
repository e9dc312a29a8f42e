import ProgramHost.Proofs.Memory.Bytes
import ProgramHost.Value.Decode
/-!
# What a memory stands for

`Decodes m v` says which value a memory stands for, by the bytes that it holds and the
places where it ends. There is a case for each way in which the reads can go: they are
made in turn, and the first one that is not wholly inside is the value. A memory of any
size stands for one value, and decoding gives it.
-/

namespace ProgramHost.Value

open Image

/-- The memory stands for the value, with one case for each way in which the reads can go. In each
the bytes that were read are named, or the first range that is not inside; nothing else
of the memory matters. -/
inductive Decodes (m : Image) : Value → Prop
  | tagOutside : m.size < 1048564 + 4 → Decodes m (.outOfBounds 1048564 4)
  | unassigned : m.HoldsWord 1048564 0 → Decodes m .unassigned
  | undefined : m.HoldsWord 1048564 1 → Decodes m .undefined
  | numberOutside : m.HoldsWord 1048564 2 → m.size < 1048568 + 8 →
      Decodes m (.outOfBounds 1048568 8)
  | number {bits : UInt64} : m.HoldsWord 1048564 2 →
      m.Holds 1048568 (LittleEndian.bytes 8 bits.toNat) → Decodes m (.number bits)
  | booleanOutside : m.HoldsWord 1048564 3 → m.size < 1048568 + 4 →
      Decodes m (.outOfBounds 1048568 4)
  | boolean {bs : List UInt8} : m.HoldsWord 1048564 3 → bs.length = 4 → m.Holds 1048568 bs →
      Decodes m (.boolean (decide (∃ b ∈ bs, b ≠ 0)))
  | pointerOutside : m.HoldsWord 1048564 4 → m.size < 1048568 + 4 →
      Decodes m (.outOfBounds 1048568 4)
  | lengthOutside {p : UInt32} : m.HoldsWord 1048564 4 → m.HoldsWord 1048568 p →
      m.size < p.toNat + 4 → Decodes m (.outOfBounds p.toNat 4)
  | textOutside {p len : UInt32} : m.HoldsWord 1048564 4 → m.HoldsWord 1048568 p →
      m.HoldsWord p.toNat len → m.size < p.toNat + 4 + len.toNat →
      Decodes m (.outOfBounds (p.toNat + 4) len.toNat)
  | text {p len : UInt32} {bs : List UInt8} : m.HoldsWord 1048564 4 → m.HoldsWord 1048568 p →
      m.HoldsWord p.toNat len → bs.length = len.toNat → m.Holds (p.toNat + 4) bs →
      Decodes m (.text (String.ofList (Text.Utf8.decode bs)))
  | function : m.HoldsWord 1048564 5 → Decodes m .function
  | invalidTag {t : UInt32} : m.HoldsWord 1048564 t → 5 < t → Decodes m (.invalidTag t)

theorem read_of_holds {m : Image} {offset : Nat} {bs : List UInt8} (h : m.Holds offset bs) :
    read m offset bs.length = .ok bs :=
  read_eq_ok_iff.2 ((m.slice?_eq_some_iff offset bs.length bs).2 ⟨rfl, h⟩)

theorem readNat_of_holds {m : Image} {offset : Nat} {bs : List UInt8} (h : m.Holds offset bs) :
    readNat m offset bs.length = .ok (LittleEndian.value bs) := by
  rw [readNat, read_of_holds h]
  rfl

theorem readNat_of_outside {m : Image} {offset len : Nat} (h : m.size < offset + len) :
    readNat m offset len = .error (.outOfBounds offset len) := by
  rw [readNat, read_eq_error_iff.2 ⟨h, rfl⟩]
  rfl

theorem readNat_of_holds_bytes {m : Image} {offset width n : Nat}
    (h : m.Holds offset (LittleEndian.bytes width n)) (hn : n < LittleEndian.span width) :
    readNat m offset width = .ok n := by
  have hread := readNat_of_holds h
  rw [LittleEndian.length_bytes, LittleEndian.value_bytes, Nat.mod_eq_of_lt hn] at hread
  exact hread

theorem readNat_of_holdsWord {m : Image} {offset : Nat} {w : UInt32}
    (h : m.HoldsWord offset w) : readNat m offset 4 = .ok w.toNat :=
  readNat_of_holds_bytes h w.toNat_lt

theorem holdsWord_unique {m : Image} {offset : Nat} {a b : UInt32} (ha : m.HoldsWord offset a)
    (hb : m.HoldsWord offset b) : a = b := by
  have hread : (.ok a.toNat : Except Value Nat) = .ok b.toNat :=
    (readNat_of_holdsWord ha).symm.trans (readNat_of_holdsWord hb)
  exact UInt32.toNat_inj.1 (Except.ok.inj hread)

theorem decode_of_tag {m : Image} {t : UInt32} {v : Value} (ht : m.HoldsWord 1048564 t)
    (h : readTagged m t.toNat = .ok v ∨ readTagged m t.toNat = .error v) : decode m = v := by
  have htag : readNat m tagOffset 4 = .ok t.toNat := readNat_of_holdsWord ht
  have hregion : decode? m = readTagged m t.toNat := by
    rw [decode?, htag]
    rfl
  rcases h with h | h <;> rw [decode, hregion, h]

theorem readTagged_number (m : Image) :
    readTagged m 2 = (readNat m dataOffset 8).map fun n => .number (UInt64.ofNat n) := by
  rw [readTagged]
  cases readNat m dataOffset 8 <;> rfl

theorem readTagged_boolean (m : Image) :
    readTagged m 3 = (readNat m dataOffset 4).map fun n => .boolean (n != 0) := by
  rw [readTagged]
  cases readNat m dataOffset 4 <;> rfl

theorem readTagged_text {m : Image} {p : UInt32} (hp : m.HoldsWord 1048568 p) :
    readTagged m 4 = readText m p.toNat := by
  have hread : readNat m dataOffset 4 = .ok p.toNat := readNat_of_holdsWord hp
  rw [readTagged, hread]
  rfl

theorem readText_of_holdsWord {m : Image} {p : Nat} {len : UInt32} (h : m.HoldsWord p len) :
    readText m p = (read m (p + 4) len.toNat).map fun bs =>
      .text (String.ofList (Text.Utf8.decode bs)) := by
  rw [readText, readNat_of_holdsWord h]
  change (do
    let bs ← read m (p + 4) len.toNat
    return text (String.ofList (Text.Utf8.decode bs))) = _
  cases read m (p + 4) len.toNat <;> rfl

theorem readTagged_of_five_lt {m : Image} {t : UInt32} (h : 5 < t) :
    readTagged m t.toNat = .ok (.invalidTag t) := by
  have hlt : 5 < t.toNat := UInt32.lt_iff_toNat_lt.1 h
  unfold readTagged
  split <;> try omega
  rw [UInt32.ofNat_toNat]

/-- A memory is decoded to the value that it stands for. -/
theorem Decodes.decode_eq {m : Image} {v : Value} (h : Decodes m v) : decode m = v := by
  cases h with
  | tagOutside hm =>
      have htag : readNat m tagOffset 4 = .error (.outOfBounds 1048564 4) :=
        readNat_of_outside hm
      rw [decode, decode?, htag]
      rfl
  | unassigned ht => exact decode_of_tag ht (.inl rfl)
  | undefined ht => exact decode_of_tag ht (.inl rfl)
  | numberOutside ht hm =>
      refine decode_of_tag ht (.inr ?_)
      have hread : readNat m dataOffset 8 = .error (.outOfBounds 1048568 8) :=
        readNat_of_outside hm
      exact (readTagged_number m).trans (by rw [hread]; rfl)
  | @number bits ht hbits =>
      refine decode_of_tag ht (.inl ?_)
      have hread : readNat m dataOffset 8 = .ok bits.toNat :=
        readNat_of_holds_bytes hbits bits.toNat_lt
      refine (readTagged_number m).trans ?_
      rw [hread]
      exact congrArg (fun b => Except.ok (Value.number b)) UInt64.ofNat_toNat
  | booleanOutside ht hm =>
      refine decode_of_tag ht (.inr ?_)
      have hread : readNat m dataOffset 4 = .error (.outOfBounds 1048568 4) :=
        readNat_of_outside hm
      exact (readTagged_boolean m).trans (by rw [hread]; rfl)
  | @boolean bs ht hlen hbs =>
      refine decode_of_tag ht (.inl ((readTagged_boolean m).trans ?_))
      have hread : readNat m dataOffset 4 = .ok (LittleEndian.value bs) :=
        hlen ▸ readNat_of_holds hbs
      have hany : (LittleEndian.value bs != 0) = decide (∃ b ∈ bs, b ≠ 0) := by
        rw [Bool.eq_iff_iff, bne_iff_ne, decide_eq_true_iff, ne_eq,
          LittleEndian.value_eq_zero_iff]
        simp
      rw [hread, ← hany]
      rfl
  | pointerOutside ht hm =>
      refine decode_of_tag ht (.inr ?_)
      have hread : readNat m dataOffset 4 = .error (.outOfBounds 1048568 4) :=
        readNat_of_outside hm
      change readTagged m 4 = _
      rw [readTagged, hread]
      rfl
  | lengthOutside ht hp hm =>
      refine decode_of_tag ht (.inr ((readTagged_text hp).trans ?_))
      rw [readText, readNat_of_outside hm]
      rfl
  | textOutside ht hp hlen hm =>
      refine decode_of_tag ht (.inr ((readTagged_text hp).trans ?_))
      rw [readText_of_holdsWord hlen, read_eq_error_iff.2 ⟨hm, rfl⟩]
      rfl
  | text ht hp hword hlen hbs =>
      refine decode_of_tag ht (.inl ((readTagged_text hp).trans ?_))
      rw [readText_of_holdsWord hword, ← hlen, read_of_holds hbs]
      rfl
  | function ht => exact decode_of_tag ht (.inl rfl)
  | invalidTag ht hlt => exact decode_of_tag ht (.inl (readTagged_of_five_lt hlt))

theorem tag_cases (t : UInt32) :
    t = 0 ∨ t = 1 ∨ t = 2 ∨ t = 3 ∨ t = 4 ∨ t = 5 ∨ 5 < t := by
  simp only [← UInt32.toNat_inj, UInt32.lt_iff_toNat_lt, UInt32.reduceToNat]
  omega

theorem exists_decodes_number {m : Image} (ht : m.HoldsWord 1048564 2) :
    ∃ v, Decodes m v := by
  by_cases hdata : m.size < 1048568 + 8
  · exact ⟨_, .numberOutside ht hdata⟩
  · obtain ⟨n, hn, hbits⟩ := exists_holds_bytes (Nat.le_of_not_lt hdata)
    refine ⟨.number (UInt64.ofNat n), .number ht ?_⟩
    rw [UInt64.toNat_ofNat_of_lt' hn]
    exact hbits

theorem exists_decodes_boolean {m : Image} (ht : m.HoldsWord 1048564 3) :
    ∃ v, Decodes m v := by
  by_cases hdata : m.size < 1048568 + 4
  · exact ⟨_, .booleanOutside ht hdata⟩
  · obtain ⟨bs, hlen, hbs⟩ := exists_holds (Nat.le_of_not_lt hdata)
    exact ⟨_, .boolean ht hlen hbs⟩

theorem exists_decodes_text {m : Image} (ht : m.HoldsWord 1048564 4) :
    ∃ v, Decodes m v := by
  by_cases hdata : m.size < 1048568 + 4
  · exact ⟨_, .pointerOutside ht hdata⟩
  obtain ⟨p, hp⟩ := exists_holdsWord (Nat.le_of_not_lt hdata)
  by_cases hlength : m.size < p.toNat + 4
  · exact ⟨_, .lengthOutside ht hp hlength⟩
  obtain ⟨len, hlen⟩ := exists_holdsWord (Nat.le_of_not_lt hlength)
  by_cases htext : m.size < p.toNat + 4 + len.toNat
  · exact ⟨_, .textOutside ht hp hlen htext⟩
  obtain ⟨bs, hcount, hbs⟩ := exists_holds (Nat.le_of_not_lt htext)
  exact ⟨_, .text ht hp hlen hcount hbs⟩

/-- A memory stands for some value: each read finds what it asks for, or the memory
ends before. -/
theorem exists_decodes (m : Image) : ∃ v, Decodes m v := by
  by_cases htag : m.size < 1048564 + 4
  · exact ⟨_, .tagOutside htag⟩
  obtain ⟨t, ht⟩ := exists_holdsWord (Nat.le_of_not_lt htag)
  rcases tag_cases t with rfl | rfl | rfl | rfl | rfl | rfl | hlt
  · exact ⟨_, .unassigned ht⟩
  · exact ⟨_, .undefined ht⟩
  · exact exists_decodes_number ht
  · exact exists_decodes_boolean ht
  · exact exists_decodes_text ht
  · exact ⟨_, .function ht⟩
  · exact ⟨_, .invalidTag ht hlt⟩

theorem decode_eq_iff (m : Image) (v : Value) : decode m = v ↔ Decodes m v := by
  constructor
  · rintro rfl
    obtain ⟨v, hv⟩ := exists_decodes m
    rw [hv.decode_eq]
    exact hv
  · exact Decodes.decode_eq

/-- Every memory, however long, is decoded by its reads in turn, and the first one that
is not wholly inside is the value. A read that is given as the value is one of five, and
the memory ends inside it. -/
theorem decode_decided_by_first_read_outside (m : Image) :
    (∀ v, decode m = v ↔ Decodes m v) ∧
      ∀ offset len, decode m = .outOfBounds offset len →
        m.size < offset + len ∧
          ((offset, len) = (1048564, 4) ∨
            m.HoldsWord 1048564 2 ∧ (offset, len) = (1048568, 8) ∨
            (m.HoldsWord 1048564 3 ∨ m.HoldsWord 1048564 4) ∧ (offset, len) = (1048568, 4) ∨
            m.HoldsWord 1048564 4 ∧ ∃ p : UInt32, m.HoldsWord 1048568 p ∧
              ((offset, len) = (p.toNat, 4) ∨
                ∃ n : UInt32, m.HoldsWord p.toNat n ∧
                  (offset, len) = (p.toNat + 4, n.toNat))) := by
  refine ⟨decode_eq_iff m, fun offset len h => ?_⟩
  cases (decode_eq_iff m _).1 h with
  | tagOutside hm => exact ⟨hm, .inl rfl⟩
  | numberOutside ht hm => exact ⟨hm, .inr (.inl ⟨ht, rfl⟩)⟩
  | booleanOutside ht hm => exact ⟨hm, .inr (.inr (.inl ⟨.inl ht, rfl⟩))⟩
  | pointerOutside ht hm => exact ⟨hm, .inr (.inr (.inl ⟨.inr ht, rfl⟩))⟩
  | lengthOutside ht hp hm => exact ⟨hm, .inr (.inr (.inr ⟨ht, _, hp, .inl rfl⟩))⟩
  | textOutside ht hp hlen hm =>
      exact ⟨hm, .inr (.inr (.inr ⟨ht, _, hp, .inr ⟨_, hlen, rfl⟩⟩))⟩

/-- A tag that calls for no data is read from a memory that ends with it. -/
example : decode ((zeros 1048568).write 1048564 (ofList [5, 0, 0, 0])) = .function := rfl

/-- A number needs all its data. -/
example : decode ((zeros 1048575).write 1048564 (ofList [2, 0, 0, 0])) =
    .outOfBounds 1048568 8 := rfl

end ProgramHost.Value
