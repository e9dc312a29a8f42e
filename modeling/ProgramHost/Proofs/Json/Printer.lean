import ProgramHost.Proofs.Json.Reader
/-!
# The compact text of a document is read back

The compact text of a document whose numbers are well formed has the grammar, and holds no
control character whatever the strings hold. So it is read back as the document, and two
documents with one text are equal. The order of the fields makes no difference to this.
-/

namespace ProgramHost.Json

open Numeral

/-- All numbers in the document are such as documents have. -/
inductive Proper : Json → Prop
  | null : Proper .null
  | bool (b : Bool) : Proper (.bool b)
  | number {n : Numeral} : n.Proper → Proper (.number n)
  | string (s : String) : Proper (.string s)
  | array {js : List Json} : (∀ j ∈ js, Proper j) → Proper (.array js)
  | object {fs : List (String × Json)} : (∀ f ∈ fs, Proper f.2) → Proper (.object fs)

theorem proper_nat (n : Nat) : (Json.nat n).Proper := .number (proper_ofNat n)

/-! ## The items and fields of a text -/

def fieldText (f : String × Json) : List Char := quoted f.1 ++ ':' :: f.2.text

theorem moreItems_eq (js : List Json) :
    moreItems js = (js.flatMap fun j => ',' :: j.text) ++ [']'] := by
  induction js with
  | nil => rfl
  | cons j js ih => rw [moreItems, ih, List.flatMap_cons, List.append_assoc, List.cons_append]

theorem moreFields_eq (fs : List (String × Json)) :
    moreFields fs = (fs.flatMap fun f => ',' :: fieldText f) ++ ['\x7d'] := by
  induction fs with
  | nil => rfl
  | cons f fs ih =>
      rw [moreFields, ih, List.flatMap_cons, fieldText]
      simp only [List.cons_append, List.append_assoc]

theorem text_array_cons (j : Json) (js : List Json) :
    (array (j :: js)).text = '[' :: ((j.text ++ js.flatMap fun i => ',' :: i.text) ++ [']']) := by
  rw [text, moreItems_eq, List.append_assoc]

theorem text_object_cons (f : String × Json) (fs : List (String × Json)) :
    (object (f :: fs)).text =
      '\x7b' :: ((fieldText f ++ fs.flatMap fun g => ',' :: fieldText g) ++ ['\x7d']) := by
  rw [text, moreFields_eq, fieldText]
  simp only [List.cons_append, List.append_assoc]

theorem separated_flatMap {α : Type} {part : List Char → α → Prop} {f : α → List Char}
    {xs : List α} {x : α} (h : ∀ y ∈ x :: xs, part (f y) y) :
    Separated part (f x ++ xs.flatMap fun y => ',' :: f y) (x :: xs) := by
  induction xs generalizing x with
  | nil =>
      rw [List.flatMap_nil, List.append_nil]
      exact .one (h x List.mem_cons_self)
  | cons y ys ih =>
      rw [List.flatMap_cons, List.cons_append]
      exact .more (h x List.mem_cons_self) (ih fun z hz => h z (List.mem_cons_of_mem _ hz))

/-! ## The text has the grammar -/

theorem writtenUnit_control {c : Char} (hc : c.toNat < 0x20) :
    WrittenUnit ['0', '0', Nat.digitChar (c.toNat / 16), Nat.digitChar (c.toNat % 16)]
      c.toNat := by
  have hhigh : c.toNat / 16 < 16 := by omega
  have hlow : c.toNat % 16 < 16 := by omega
  have hunit := WrittenUnit.intro (Radix.mapM_hexDigit?_text [0, 0, ⟨_, hhigh⟩, ⟨_, hlow⟩])
  have hvalue : Radix.ofDigits [(0 : Fin 16), 0, ⟨c.toNat / 16, hhigh⟩, ⟨c.toNat % 16, hlow⟩] =
      c.toNat := by
    simp only [Radix.ofDigits, List.foldl_cons, List.foldl_nil]
    omega
  rwa [hvalue] at hunit

theorem writtenChar_escape (c : Char) : WrittenChar (escape c) c := by
  unfold escape
  iterate 7
    split
    · next h =>
        subst h
        exact .short rfl
  split
  · next hc =>
      have hhigh : ¬ IsHigh c.toNat := fun h => by have := h.1; omega
      have hlow : ¬ IsLow c.toNat := fun h => by have := h.1; omega
      have hchar := WrittenChar.unit (writtenUnit_control hc) hhigh hlow
      rwa [Char.ofNat_toNat] at hchar
  · next hquote hslash _ _ _ _ _ hc => exact .plain hquote hslash (Nat.le_of_not_lt hc)

theorem writtenString_quoted (s : String) : WrittenString (quoted s) s := by
  refine .intro ?_
  induction s.toList with
  | nil => exact .nil
  | cons c cs ih => exact .cons (writtenChar_escape c) ih

theorem writtenField_fieldText {f : String × Json} (h : Written f.2.text f.2) :
    WrittenField (fieldText f) f :=
  .intro blank_nil (writtenString_quoted f.1) blank_nil h.element

theorem Proper.written_text {j : Json} (h : j.Proper) : Written j.text j := by
  induction h with
  | null => exact .null
  | bool b => exact .bool b
  | number hn => exact .number hn.written_text
  | string s => exact .string (writtenString_quoted s)
  | @array js _ ih =>
      cases js with
      | nil => exact .emptyArray blank_nil
      | cons j js =>
          rw [text_array_cons]
          exact .array (separated_flatMap fun i hi => (ih i hi).element)
  | @object fs _ ih =>
      cases fs with
      | nil => exact .emptyObject blank_nil
      | cons f fs =>
          rw [text_object_cons]
          exact .object (separated_flatMap fun g hg => writtenField_fieldText (ih g hg))

/-! ## Properties of the text -/

def marks : List Char := ['[', ']', '\x7b', '\x7d', ',', ':']

/-- The parts of documents have the property, and so have texts in a row that each have it. -/
structure HoldsOfParts (p : List Char → Prop) : Prop where
  nil : p []
  append {cs ds : List Char} : p cs → p ds → p (cs ++ ds)
  mark : ∀ c ∈ marks, p [c]
  null : p ['n', 'u', 'l', 'l']
  bool (b : Bool) : p (boolText b)
  number (n : Numeral) : p n.text
  string (s : String) : p (quoted s)

namespace HoldsOfParts

variable {p : List Char → Prop}

theorem cons (h : HoldsOfParts p) {c : Char} (hc : c ∈ marks) {cs : List Char} (hcs : p cs) :
    p (c :: cs) :=
  h.append (h.mark c hc) hcs

theorem bracketed (h : HoldsOfParts p) {c d : Char} (hc : c ∈ marks) (hd : d ∈ marks)
    {cs : List Char} (hcs : p cs) : p (c :: (cs ++ [d])) :=
  h.cons hc (h.append hcs (h.mark d hd))

theorem separated (h : HoldsOfParts p) {α : Type} {f : α → List Char} {x : α} {xs : List α}
    (hf : ∀ y ∈ x :: xs, p (f y)) : p (f x ++ xs.flatMap fun y => ',' :: f y) := by
  obtain ⟨hx, hxs⟩ := List.forall_mem_cons.1 hf
  refine h.append hx ?_
  clear hf
  induction xs with
  | nil => exact h.nil
  | cons y ys ih =>
      obtain ⟨hy, hys⟩ := List.forall_mem_cons.1 hxs
      rw [List.flatMap_cons]
      exact h.append (h.cons (by decide) hy) (ih hys)

/-- The whole text of a document has the property. -/
theorem text (h : HoldsOfParts p) {j : Json} (hj : j.Proper) : p j.text := by
  induction hj with
  | null => exact h.null
  | bool b => exact h.bool b
  | number => exact h.number _
  | string s => exact h.string s
  | @array js _ ih =>
      cases js with
      | nil => exact h.cons (by decide) (h.mark _ (by decide))
      | cons j js =>
          rw [text_array_cons]
          exact h.bracketed (by decide) (by decide) (h.separated ih)
  | @object fs _ ih =>
      cases fs with
      | nil => exact h.cons (by decide) (h.mark _ (by decide))
      | cons f fs =>
          rw [text_object_cons]
          exact h.bracketed (by decide) (by decide) (h.separated fun g hg =>
            h.append (h.string g.1) (h.cons (by decide) (ih g hg)))

end HoldsOfParts

/-- What holds of the digits and of the signs of a literal holds of all its characters. -/
theorem forall_mem_numeral {p : Char → Prop} (hdigit : ∀ d : Digit, p (Radix.digitChar d))
    (hsign : ∀ c ∈ ['-', '+', '.', 'e'], p c) (n : Numeral) : ∀ c ∈ n.text, p c := by
  have hdigits : ∀ ds : List Digit, ∀ c ∈ Radix.text ds, p c :=
    fun ds => List.forall_mem_map.2 fun d _ => hdigit d
  unfold Numeral.text
  simp only [List.forall_mem_append]
  refine ⟨⟨⟨?sign, hdigits _⟩, ?fraction⟩, ?exponent⟩
  case sign =>
    cases n.negative with
    | true => exact List.forall_mem_singleton.2 (hsign '-' (by decide))
    | false => exact List.forall_mem_nil _
  case fraction =>
    cases n.fraction with
    | nil => exact List.forall_mem_nil _
    | cons d ds => exact List.forall_mem_cons.2 ⟨hsign '.' (by decide), hdigits _⟩
  case exponent =>
    cases n.exponent with
    | none => exact List.forall_mem_nil _
    | some e =>
        refine List.forall_mem_cons.2 ⟨hsign 'e' (by decide), List.forall_mem_cons.2 ⟨?_,
          hdigits _⟩⟩
        split
        · exact hsign '-' (by decide)
        · exact hsign '+' (by decide)

/-! ## The text has no control characters -/

def Printable (cs : List Char) : Prop := ∀ c ∈ cs, 0x20 ≤ c.toNat

instance (cs : List Char) : Decidable (Printable cs) := List.decidableBAll _ _

theorem printable_cons {c : Char} {cs : List Char} :
    Printable (c :: cs) ↔ 0x20 ≤ c.toNat ∧ Printable cs :=
  List.forall_mem_cons

theorem printable_escape (c : Char) : Printable (escape c) := by
  unfold escape
  iterate 7
    split
    · simp [Printable]
  split
  · next hc =>
      have hdigit : ∀ n : Fin 16, 0x20 ≤ (Nat.digitChar n).toNat := by decide
      have hhigh := hdigit ⟨c.toNat / 16, by omega⟩
      have hlow := hdigit ⟨c.toNat % 16, by omega⟩
      simp only [unicodeEscape, printable_cons]
      exact ⟨by decide, by decide, by decide, by decide, hhigh, hlow, by simp [Printable]⟩
  · next hc => exact printable_cons.2 ⟨Nat.le_of_not_lt hc, by simp [Printable]⟩

theorem printable_quoted (s : String) : Printable (quoted s) := by
  refine List.forall_mem_append.2 ⟨printable_cons.2 ⟨by decide, fun c hc => ?_⟩, by simp⟩
  obtain ⟨d, -, hd⟩ := List.mem_flatMap.1 hc
  exact printable_escape d c hd

theorem holdsOfParts_printable : HoldsOfParts Printable where
  nil := by decide
  append hcs hds := List.forall_mem_append.2 ⟨hcs, hds⟩
  mark := by simp [marks, Printable]
  null := by decide
  bool := by decide
  number := forall_mem_numeral (by decide) (by simp)
  string := printable_quoted

/-! ## The text is read back -/

/-- The text is a document without control characters, and it is read as the value. It is shown of
the grammar and of a reader, so neither can be too loose unnoticed. -/
structure IsTextOf (t : String) (j : Json) : Prop where
  written : WrittenElement t.toList j
  printable : Printable t.toList
  parse?_eq : parse? t = some j

theorem Proper.isTextOf_compact {j : Json} (h : j.Proper) : IsTextOf j.compact j := by
  have htext : j.compact.toList = j.text := String.toList_ofList
  have hwritten : WrittenElement j.compact.toList j := htext ▸ h.written_text.element
  exact ⟨hwritten, htext ▸ holdsOfParts_printable.text h, hwritten.parse?_eq⟩

/-- The text is a document, and what is read from it is `x`. What is read is found by names, in
whatever order the fields stand. -/
def Conveys {α : Type} (read? : Json → Option α) (t : String) (x : α) : Prop :=
  ∃ j, IsTextOf t j ∧ read? j = some x

theorem Proper.conveys_compact {α : Type} {read? : Json → Option α} {j : Json} {x : α}
    (h : j.Proper) (hread : read? j = some x) : Conveys read? j.compact x :=
  ⟨j, h.isTextOf_compact, hread⟩

theorem Conveys.unique {α : Type} {read? : Json → Option α} {t : String} {x y : α}
    (hx : Conveys read? t x) (hy : Conveys read? t y) : x = y := by
  obtain ⟨j, hj, hread⟩ := hx
  obtain ⟨k, hk, hread'⟩ := hy
  obtain rfl := Option.some.inj (hj.parse?_eq.symm.trans hk.parse?_eq)
  exact Option.some.inj (hread.symm.trans hread')

theorem Proper.eq_of_compact_eq {j k : Json} (hj : j.Proper) (hk : k.Proper)
    (h : j.compact = k.compact) : j = k :=
  Conveys.unique (hj.conveys_compact rfl) (h ▸ hk.conveys_compact rfl)

/-! ## Documents with their fields in order -/

theorem sortedItems_eq_map (js : List Json) : sortedItems js = js.map sorted := by
  induction js with
  | nil => rfl
  | cons j js ih => rw [sortedItems, ih, List.map_cons]

theorem sortedFields_eq_map (fs : List (String × Json)) :
    sortedFields fs = fs.map fun f => (f.1, f.2.sorted) := by
  induction fs with
  | nil => rfl
  | cons f fs ih => rw [sortedFields, ih, List.map_cons]

theorem mem_insertField_iff {f g : String × Json} (fs : List (String × Json)) :
    g ∈ insertField f fs ↔ g = f ∨ g ∈ fs := by
  induction fs with
  | nil => rw [insertField, List.mem_singleton]; simp
  | cons h fs ih =>
      rw [insertField]
      split
      · rw [List.mem_cons, ih, List.mem_cons, or_left_comm]
      · rw [List.mem_cons]

theorem mem_sortFields_iff {g : String × Json} (fs : List (String × Json)) :
    g ∈ sortFields fs ↔ g ∈ fs := by
  induction fs with
  | nil => rfl
  | cons f fs ih => rw [sortFields_cons, mem_insertField_iff, ih, List.mem_cons]

theorem Proper.sorted {j : Json} (h : j.Proper) : j.sorted.Proper := by
  induction h with
  | null => exact .null
  | bool b => exact .bool b
  | number hn => exact .number hn
  | string s => exact .string s
  | array _ ih =>
      rw [Json.sorted, sortedItems_eq_map]
      exact .array (List.forall_mem_map.2 ih)
  | object _ ih =>
      rw [Json.sorted, sortedFields_eq_map]
      refine .object fun g hg => ?_
      obtain ⟨f, hf, rfl⟩ := List.mem_map.1 ((mem_sortFields_iff _).1 hg)
      exact ih f hf

end ProgramHost.Json
