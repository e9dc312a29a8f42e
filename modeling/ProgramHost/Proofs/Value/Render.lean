import ProgramHost.Proofs.Json.Fields
import ProgramHost.Proofs.Text.Quoted
import ProgramHost.Proofs.Value.Number
/-!
# The texts of a value tell which value it is

All kinds of values share one space of texts. The first characters of a line say which kind
of value it shows, and what follows says which one of its kind: a text is in quotes and is
read back, a number in a text has digits that denote it, and a finite number has a literal
with all its bits. Only those numbers share a text that are not numbers, and in documents all
that are not finite.
-/

namespace ProgramHost

namespace Numeral

theorem datum_eq_infinite_iff {f : Format} {bits : Nat} {negative : Bool} :
    f.datum bits = .infinite negative ↔
      f.pattern bits = f.infinity ∧ f.isNegative bits = negative := by
  have hexponent : f.pattern bits / f.fractions = bits / f.fractions % f.exponents :=
    Nat.mod_mul_right_div_self _ _ _
  have hfraction : f.pattern bits % f.fractions = bits % f.fractions :=
    Nat.mod_mul_right_mod _ _ _
  have hlast : f.pattern bits = f.infinity ↔
      bits / f.fractions % f.exponents = f.exponents - 1 ∧ bits % f.fractions = 0 := by
    rw [← hexponent, ← hfraction, Format.infinity]
    constructor
    · intro h
      rw [h, Nat.mul_div_cancel _ f.fractions_pos, Nat.mul_mod_left]
      exact ⟨rfl, rfl⟩
    · rintro ⟨hdiv, hmod⟩
      have hsplit := Nat.div_add_mod (f.pattern bits) f.fractions
      rw [hdiv, hmod, Nat.add_zero, Nat.mul_comm] at hsplit
      exact hsplit.symm
  rw [hlast]
  unfold Format.datum Format.isNegative
  dsimp only
  split
  · split <;> simp [*]
  · next h => split <;> simp [h]

theorem eq_of_datum_infinite {a b : UInt64} {negative : Bool}
    (ha : Format.binary64.datum a.toNat = .infinite negative)
    (hb : Format.binary64.datum b.toNat = .infinite negative) : a = b := by
  obtain ⟨hpattern, hsign⟩ := datum_eq_infinite_iff.1 ha
  obtain ⟨hpattern', hsign'⟩ := datum_eq_infinite_iff.1 hb
  exact UInt64.toNat_inj.1 (Format.eq_of_pattern_eq (toNat_lt_binary64 a) (toNat_lt_binary64 b)
    (hpattern.trans hpattern'.symm) (hsign.trans hsign'.symm))

def IsFinite (bits : UInt64) : Prop :=
  ∃ negative x, Format.binary64.datum bits.toNat = .finite negative x

theorem ofText?_plainText {bits : UInt64} {negative : Bool} {x : Dyadic}
    (h : Format.binary64.datum bits.toNat = .finite negative x) :
    ofText? (plainText bits.toNat) = some (ofDyadic .plain negative x) := by
  unfold plainText
  simp only [h]
  exact (proper_ofDyadic .plain negative x).ofText?_text

theorem ofText?_plainText_eq_none {bits : UInt64} (h : ¬ IsFinite bits) :
    ofText? (plainText bits.toNat) = none := by
  unfold plainText
  cases hdatum : Format.binary64.datum bits.toNat with
  | nan => rfl
  | infinite negative => cases negative <;> rfl
  | finite negative x => exact absurd ⟨negative, x, hdatum⟩ h

/-- Numbers that are not finite are shown alike only if they are the same infinity, or not
numbers. -/
theorem eq_or_nan_of_not_finite {a b : UInt64} (ha : ¬ IsFinite a) (hb : ¬ IsFinite b)
    (h : plainText a.toNat = plainText b.toNat) :
    a = b ∨ Format.binary64.datum a.toNat = .nan ∧ Format.binary64.datum b.toNat = .nan := by
  unfold plainText at h
  cases hda : Format.binary64.datum a.toNat with
  | finite s x => exact absurd ⟨s, x, hda⟩ ha
  | nan =>
      cases hdb : Format.binary64.datum b.toNat with
      | finite t y => exact absurd ⟨t, y, hdb⟩ hb
      | nan => exact .inr ⟨rfl, rfl⟩
      | infinite t =>
          simp only [hda, hdb] at h
          cases t <;> cases h
  | infinite s =>
      cases hdb : Format.binary64.datum b.toNat with
      | finite t y => exact absurd ⟨t, y, hdb⟩ hb
      | nan =>
          simp only [hda, hdb] at h
          cases s <;> cases h
      | infinite t =>
          simp only [hda, hdb] at h
          have hsign : s = t := by
            cases s <;> cases t <;> first | rfl | cases h
          exact .inl (eq_of_datum_infinite hda (hsign ▸ hdb))

theorem plainText_eq_iff {a b : UInt64} :
    plainText a.toNat = plainText b.toNat ↔
      a = b ∨ Format.binary64.datum a.toNat = .nan ∧ Format.binary64.datum b.toNat = .nan := by
  constructor
  · intro h
    by_cases ha : IsFinite a
    · obtain ⟨s, x, hx⟩ := ha
      have hread := ofText?_plainText hx
      by_cases hb : IsFinite b
      · obtain ⟨t, y, hy⟩ := hb
        rw [h, ofText?_plainText hy] at hread
        exact .inl (eq_of_ofDyadic_eq .plain hx hy (Option.some.inj hread).symm)
      · rw [h, ofText?_plainText_eq_none hb] at hread
        cases hread
    · by_cases hb : IsFinite b
      · obtain ⟨t, y, hy⟩ := hb
        have hread := ofText?_plainText hy
        rw [← h, ofText?_plainText_eq_none ha] at hread
        cases hread
      · exact eq_or_nan_of_not_finite ha hb h
  · rintro (rfl | ⟨ha, hb⟩)
    · rfl
    · unfold plainText
      simp only [ha, hb]

end Numeral

namespace Value

open Numeral

/-! ## Lines -/

/-- The kind of value that a line shows, by how it begins. The first characters are enough to tell
the kinds apart, so what is shown of one value is never taken for one of another kind. -/
inductive Lead where
  | unassigned
  | undefined
  | number
  | boolean
  | text
  | function
  | invalidTag
  | outOfBounds

def lead : Value → Lead
  | .unassigned => .unassigned
  | .undefined => .undefined
  | .number _ => .number
  | .boolean _ => .boolean
  | .text _ => .text
  | .function => .function
  | .invalidTag _ => .invalidTag
  | .outOfBounds _ _ => .outOfBounds

def leadOf : List Char → Lead
  | '"' :: _ => .text
  | 'u' :: 'n' :: 'a' :: _ => .unassigned
  | 'u' :: _ => .undefined
  | 't' :: _ => .boolean
  | 'f' :: _ => .boolean
  | '<' :: 'f' :: _ => .function
  | '<' :: 'i' :: _ => .invalidTag
  | '<' :: _ => .outOfBounds
  | _ => .number

theorem leadOf_plainText (bits : UInt64) : leadOf (plainText bits.toNat) = .number := by
  unfold plainText
  cases hdatum : Format.binary64.datum bits.toNat with
  | nan => rfl
  | infinite negative => cases negative <;> rfl
  | finite negative x =>
      have hwritten := (proper_ofDyadic .plain negative x).written_text
      obtain ⟨c, cs, htext, hc⟩ := hwritten.exists_eq_cons
      have hne : ∀ {d : Char}, Radix.digit? d = none → d ≠ '-' → c ≠ d :=
        Json.BeginsNumber.ne hc
      simp only [htext]
      unfold leadOf
      split <;> first | rfl | exact absurd (List.cons.inj ‹_›).1 (hne rfl (by decide))

theorem leadOf_display (v : Value) : leadOf v.display = v.lead := by
  cases v with
  | number bits => exact leadOf_plainText bits
  | boolean b => cases b <;> rfl
  | unassigned => rfl
  | undefined => rfl
  | text s => rfl
  | function => rfl
  | invalidTag tag => rfl
  | outOfBounds offset len => rfl

theorem decimal_append_inj {m n : Nat} {cs ds : List Char} (hcs : EndsDigits cs)
    (hds : EndsDigits ds) (h : Radix.decimal m ++ cs = Radix.decimal n ++ ds) :
    m = n ∧ cs = ds := by
  have hspan := Radix.spanDigits_text Radix.digit?_digitChar (Radix.tens m) hcs
  have hspan' := Radix.spanDigits_text Radix.digit?_digitChar (Radix.tens n) hds
  unfold Radix.decimal at h
  rw [h, hspan'] at hspan
  obtain ⟨htens, hrest⟩ := Prod.mk.inj hspan
  exact ⟨Radix.tens_injective htens.symm, hrest.symm⟩

theorem endsDigits_cons {c : Char} (h : Radix.digit? c = none) (cs : List Char) :
    EndsDigits (c :: cs) := by
  rintro c ⟨⟩
  exact h

theorem display_invalidTag (tag : UInt32) :
    (invalidTag tag).display =
      "<invalid type tag ".toList ++ (Radix.decimal tag.toNat ++ ['>']) :=
  List.append_assoc _ _ _

theorem display_outOfBounds (offset len : Nat) :
    (outOfBounds offset len).display = "<out of bounds read of ".toList ++
      (Radix.decimal len ++ (" bytes at ".toList ++ (Radix.decimal offset ++ ['>']))) := by
  unfold display
  simp only [List.append_assoc]

theorem eq_of_invalidTag_display_eq {s t : UInt32}
    (h : (invalidTag s).display = (invalidTag t).display) : s = t := by
  rw [display_invalidTag, display_invalidTag] at h
  exact UInt32.toNat_inj.1 (decimal_append_inj (endsDigits_cons rfl []) (endsDigits_cons rfl [])
    (List.append_cancel_left h)).1

theorem eq_of_outOfBounds_display_eq {o o' l l' : Nat}
    (h : (outOfBounds o l).display = (outOfBounds o' l').display) : o = o' ∧ l = l' := by
  have hends : ∀ cs, EndsDigits (" bytes at ".toList ++ cs) := endsDigits_cons rfl
  rw [display_outOfBounds, display_outOfBounds] at h
  obtain ⟨hlen, hrest⟩ := decimal_append_inj (hends _) (hends _) (List.append_cancel_left h)
  obtain ⟨hoffset, -⟩ := decimal_append_inj (endsDigits_cons rfl []) (endsDigits_cons rfl [])
    (List.append_cancel_left hrest)
  exact ⟨hoffset, hlen⟩

def IsNaN (v : Value) : Prop :=
  ∃ bits : UInt64, v = .number bits ∧ Format.binary64.datum bits.toNat = .nan

def IsNotFinite (v : Value) : Prop :=
  ∃ bits : UInt64, v = .number bits ∧ ¬ IsFinite bits

theorem display_eq_iff (a b : Value) :
    a.display = b.display ↔ a = b ∨ a.IsNaN ∧ b.IsNaN := by
  constructor
  · intro h
    have hlead := congrArg leadOf h
    rw [leadOf_display, leadOf_display] at hlead
    cases a <;> cases b <;> cases hlead
    case unassigned.unassigned.refl => exact .inl rfl
    case undefined.undefined.refl => exact .inl rfl
    case function.function.refl => exact .inl rfl
    case number.number.refl x y =>
      rcases plainText_eq_iff.1 h with rfl | ⟨hx, hy⟩
      · exact .inl rfl
      · exact .inr ⟨⟨x, rfl, hx⟩, y, rfl, hy⟩
    case boolean.boolean.refl x y =>
      cases x <;> cases y <;> first | exact .inl rfl | cases h
    case text.text.refl s t =>
      have htext := Text.Quoted.encode_injective h
      exact .inl (congrArg text (String.toList_inj.1 htext))
    case invalidTag.invalidTag.refl s t =>
      exact .inl (congrArg invalidTag (eq_of_invalidTag_display_eq h))
    case outOfBounds.outOfBounds.refl o l o' l' =>
      obtain ⟨rfl, rfl⟩ := eq_of_outOfBounds_display_eq h
      exact .inl rfl
  · rintro (rfl | ⟨⟨x, rfl, hx⟩, y, rfl, hy⟩)
    · rfl
    · exact plainText_eq_iff.2 (.inr ⟨hx, hy⟩)

/-! ## Documents -/

theorem numberJson_eq_null {bits : UInt64} (h : ¬ IsFinite bits) : numberJson bits = .null := by
  unfold numberJson ofBits?
  cases hdatum : Format.binary64.datum bits.toNat with
  | nan => rfl
  | infinite negative => rfl
  | finite negative x => exact absurd ⟨negative, x, hdatum⟩ h

theorem proper_numberJson (bits : UInt64) : (numberJson bits).Proper := by
  by_cases h : IsFinite bits
  · obtain ⟨negative, x, hx⟩ := h
    rw [numberJson_eq hx]
    exact .number (proper_ofDyadic .document64 negative x)
  · rw [numberJson_eq_null h]
    exact .null

theorem numberJson_eq_iff {a b : UInt64} :
    numberJson a = numberJson b ↔ a = b ∨ ¬ IsFinite a ∧ ¬ IsFinite b := by
  constructor
  · intro h
    by_cases ha : IsFinite a <;> by_cases hb : IsFinite b
    · obtain ⟨s, x, hx⟩ := ha
      obtain ⟨t, y, hy⟩ := hb
      rw [numberJson_eq hx, numberJson_eq hy, Json.number.injEq] at h
      exact .inl (eq_of_ofDyadic_eq .document64 hx hy h)
    · obtain ⟨s, x, hx⟩ := ha
      rw [numberJson_eq hx, numberJson_eq_null hb] at h
      cases h
    · obtain ⟨t, y, hy⟩ := hb
      rw [numberJson_eq_null ha, numberJson_eq hy] at h
      cases h
    · exact .inr ⟨ha, hb⟩
  · rintro (rfl | ⟨ha, hb⟩)
    · rfl
    · rw [numberJson_eq_null ha, numberJson_eq_null hb]

theorem sorted_numberJson (bits : UInt64) : (numberJson bits).sorted = numberJson bits := by
  unfold numberJson
  split <;> rfl

theorem proper_tagged (type : String) : (tagged type).Proper :=
  .object (List.forall_mem_singleton.2 (.string type))

theorem proper_taggedWith (type : String) {content : Json} (h : content.Proper) :
    (taggedWith type content).Proper :=
  .object (List.forall_mem_cons.2 ⟨.string type, List.forall_mem_singleton.2 h⟩)

theorem proper_toJson (v : Value) : v.toJson.Proper := by
  cases v with
  | unassigned => exact proper_tagged _
  | undefined => exact proper_tagged _
  | function => exact proper_tagged _
  | number bits => exact proper_taggedWith _ (proper_numberJson bits)
  | boolean b => exact proper_taggedWith _ (.bool b)
  | text s => exact proper_taggedWith _ (.string s)
  | invalidTag tag => exact proper_taggedWith _ (Json.proper_nat _)
  | outOfBounds offset len =>
      exact proper_taggedWith _ (.object (List.forall_mem_cons.2 ⟨Json.proper_nat _,
        List.forall_mem_singleton.2 (Json.proper_nat _)⟩))

def Lead.name : Lead → String
  | .unassigned => "unassigned"
  | .undefined => "undefined"
  | .number => "number"
  | .boolean => "boolean"
  | .text => "text"
  | .function => "function"
  | .invalidTag => "invalidTag"
  | .outOfBounds => "outOfBounds"

theorem Lead.name_injective {s t : Lead} (h : s.name = t.name) : s = t := by
  cases s <;> cases t <;> first | rfl | exact absurd h (by decide)

theorem nodup_names_toJson (v : Value) : v.toJson.names.Nodup := by
  cases v <;> simp [toJson, tagged, taggedWith, Json.names]

variable {v : Value} {j : Json}

theorem type_eq_of_form (h : Json.Form v.toJson j) :
    j.field? "type" = some (.string v.lead.name) := by
  refine h.field?_eq (nodup_names_toJson v) ?_ rfl
  cases v <;> rfl

theorem value_eq_of_form (h : Json.Form v.toJson j) {k : Json}
    (hk : v.toJson.field? "value" = some k) (hsorted : k.sorted = k) :
    j.field? "value" = some k :=
  h.field?_eq (nodup_names_toJson v) hk hsorted

theorem read_eq_of_form {offset len : Nat} (h : Json.Form (outOfBounds offset len).toJson j) :
    (j.field? "value").bind (Json.field? "offset") = some (.nat offset) ∧
      (j.field? "value").bind (Json.field? "len") = some (.nat len) := by
  have hnodup : (Json.object [("offset", .nat offset), ("len", .nat len)]).names.Nodup := by
    simp [Json.names]
  obtain ⟨k, hk, hform⟩ := @Json.Form.exists_field? _ _ _ "value" h
    (nodup_names_toJson _) rfl
  rw [hk]
  exact ⟨hform.field?_eq hnodup rfl (Json.sorted_nat _),
    hform.field?_eq hnodup rfl (Json.sorted_nat _)⟩

/-- A document of one value is a document of another only if neither is finite. -/
theorem eq_or_not_finite_of_form {a b : Value} (ha : Json.Form a.toJson j)
    (hb : Json.Form b.toJson j) : a = b ∨ a.IsNotFinite ∧ b.IsNotFinite := by
  have htype := (type_eq_of_form ha).symm.trans (type_eq_of_form hb)
  have hlead : a.lead = b.lead :=
    Lead.name_injective (Json.string.inj (Option.some.inj htype))
  cases a <;> cases b <;> cases hlead
  case unassigned.unassigned.refl => exact .inl rfl
  case undefined.undefined.refl => exact .inl rfl
  case function.function.refl => exact .inl rfl
  case number.number.refl x y =>
    have hx := value_eq_of_form ha rfl (sorted_numberJson x)
    have hy := value_eq_of_form hb rfl (sorted_numberJson y)
    rcases numberJson_eq_iff.1 (Option.some.inj (hx.symm.trans hy)) with rfl | ⟨hx, hy⟩
    · exact .inl rfl
    · exact .inr ⟨⟨x, rfl, hx⟩, y, rfl, hy⟩
  case boolean.boolean.refl x y =>
    have hx := value_eq_of_form ha (k := .bool x) rfl rfl
    have hy := value_eq_of_form hb (k := .bool y) rfl rfl
    exact .inl (congrArg boolean (Json.bool.inj (Option.some.inj (hx.symm.trans hy))))
  case text.text.refl s t =>
    have hs := value_eq_of_form ha (k := .string s) rfl rfl
    have ht := value_eq_of_form hb (k := .string t) rfl rfl
    exact .inl (congrArg text (Json.string.inj (Option.some.inj (hs.symm.trans ht))))
  case invalidTag.invalidTag.refl s t =>
    have hs := value_eq_of_form ha (k := .nat s.toNat) rfl
      (Json.sorted_nat _)
    have ht := value_eq_of_form hb (k := .nat t.toNat) rfl
      (Json.sorted_nat _)
    have hnat := Json.nat_injective (Option.some.inj (hs.symm.trans ht))
    exact .inl (congrArg invalidTag (UInt32.toNat_inj.1 hnat))
  case outOfBounds.outOfBounds.refl o l o' l' =>
    obtain ⟨hoffset, hlen⟩ := read_eq_of_form ha
    obtain ⟨hoffset', hlen'⟩ := read_eq_of_form hb
    have ho := Json.nat_injective (Option.some.inj (hoffset.symm.trans hoffset'))
    have hl := Json.nat_injective (Option.some.inj (hlen.symm.trans hlen'))
    exact .inl (by rw [ho, hl])

theorem toJson_eq_of_not_finite {a b : Value} (ha : a.IsNotFinite) (hb : b.IsNotFinite) :
    a.toJson = b.toJson := by
  obtain ⟨x, rfl, hx⟩ := ha
  obtain ⟨y, rfl, hy⟩ := hb
  rw [toJson, toJson, numberJson_eq_null hx, numberJson_eq_null hy]

/-- The text of a document of a value is that of another value only if neither is finite. -/
theorem compact_toJson_eq_iff (a b : Value) :
    a.toJson.compact = b.toJson.compact ↔ a = b ∨ a.IsNotFinite ∧ b.IsNotFinite := by
  constructor
  · intro h
    have heq := (proper_toJson a).eq_of_compact_eq (proper_toJson b) h
    exact eq_or_not_finite_of_form (.inl rfl) (.inl heq)
  · rintro (rfl | ⟨ha, hb⟩)
    · rfl
    · rw [toJson_eq_of_not_finite ha hb]

theorem compact_sorted_toJson_eq_iff (a b : Value) :
    a.toJson.sorted.compact = b.toJson.sorted.compact ↔
      a = b ∨ a.IsNotFinite ∧ b.IsNotFinite := by
  constructor
  · intro h
    have heq := (proper_toJson a).sorted.eq_of_compact_eq (proper_toJson b).sorted h
    exact eq_or_not_finite_of_form (.inr rfl) (.inr heq)
  · rintro (rfl | ⟨ha, hb⟩)
    · rfl
    · rw [toJson_eq_of_not_finite ha hb]

/-- Two values share a line only if they are equal or both not a number, and a document only
if they are equal or both not finite. The line of a text is in quotes: it has no control
character, no quote that is not escaped, and undoing its escapes gives the text back. -/
theorem texts_tell_values_apart :
    (∀ a b : Value, a.display = b.display ↔ a = b ∨ a.IsNaN ∧ b.IsNaN) ∧
      (∀ a b : Value,
        a.toJson.compact = b.toJson.compact ↔ a = b ∨ a.IsNotFinite ∧ b.IsNotFinite) ∧
      (∀ a b : Value,
        a.toJson.sorted.compact = b.toJson.sorted.compact ↔
          a = b ∨ a.IsNotFinite ∧ b.IsNotFinite) ∧
      ∀ s : String, ∃ body, (text s).display = '"' :: body ++ ['"'] ∧
        (∀ c ∈ body, ¬ Text.Quoted.IsControl c) ∧ Text.Quoted.QuotesEscaped body ∧
        Text.Quoted.decode? (text s).display = some s.toList := by
  refine ⟨display_eq_iff, compact_toJson_eq_iff, compact_sorted_toJson_eq_iff, fun s => ?_⟩
  exact ⟨Text.Quoted.body s.toList, rfl, Text.Quoted.not_isControl_body s.toList,
    Text.Quoted.quotesEscaped_body s.toList, Text.Quoted.decode?_encode s.toList⟩

/-- A text that looks like another line. -/
example : (text "<function>").display ≠ function.display := by decide

/-- Infinities are told apart by their lines only. -/
example : (number 0x7FF0000000000000).display ≠ (number 0xFFF0000000000000).display ∧
    (number 0x7FF0000000000000).toJson.compact = (number 0xFFF0000000000000).toJson.compact :=
  ⟨by decide, rfl⟩

end Value

end ProgramHost
