import ProgramHost.Proofs.Json.Compact
import ProgramHost.Tree
/-!
# Trees are read back from their documents

A tree of data is built from null, truth values, integers and texts by lists and by maps whose
keys are texts. It has a document, and `ofJson?` reads the tree back from it: the items and the
entries in their order, and each text as it was. So the text of the document says what the tree
is, and two trees of data with one text are equal.
-/

namespace ProgramHost

open Json Numeral

def Numeral.toInt? : Numeral → Option Int
  | ⟨negative, whole, [], none⟩ =>
      some (if negative then -Radix.ofDigits whole else Radix.ofDigits whole)
  | _ => none

theorem Numeral.toInt?_ofInt (z : Int) : (Numeral.ofInt z).toInt? = some z := by
  rw [Numeral.ofInt, Numeral.toInt?, Radix.ofDigits_tens]
  congr 1
  simp only [decide_eq_true_eq]
  split <;> omega

namespace Tree

/-- The tree is built from null, truth values, integers, texts, lists and maps by text. A key may
stand more than once in a map, and there is no bound on the integers and the depth. -/
inductive IsData : Tree → Prop
  | null : IsData .null
  | bool (b : Bool) : IsData (.bool b)
  | integer (z : Int) : IsData (.integer z)
  | text (s : String) : IsData (.text s)
  | list {items : List Tree} : (∀ t ∈ items, IsData t) → IsData (.list items)
  | map {entries : List (Tree × Tree)} : (∀ e ∈ entries, ∃ k, e.1 = .text k) →
      (∀ e ∈ entries, IsData e.2) → IsData (.map entries)

mutual

def ofJson? : Json → Option Tree
  | .null => some .null
  | .bool b => some (.bool b)
  | .number n => n.toInt?.map .integer
  | .string s => some (.text s)
  | .array js => (itemsOfJson? js).map .list
  | .object fs => (entriesOfJson? fs).map .map

def itemsOfJson? : List Json → Option (List Tree)
  | [] => some []
  | j :: js => do return (← ofJson? j) :: (← itemsOfJson? js)

def entriesOfJson? : List (String × Json) → Option (List (Tree × Tree))
  | [] => some []
  | (k, j) :: fs => do return (.text k, ← ofJson? j) :: (← entriesOfJson? fs)

end

/-- The tree has the document, and is read back from it. -/
structure HasDocument (t : Tree) (j : Json) : Prop where
  toJson?_eq : t.toJson? = .ok j
  proper : j.Proper
  ofJson?_eq : ofJson? j = some t

theorem exists_itemsJson? {ts : List Tree} (h : ∀ t ∈ ts, ∃ j, HasDocument t j) :
    ∃ js, itemsJson? ts = .ok js ∧ (∀ j ∈ js, j.Proper) ∧ itemsOfJson? js = some ts := by
  induction ts with
  | nil => exact ⟨[], rfl, List.forall_mem_nil _, rfl⟩
  | cons t ts ih =>
      obtain ⟨⟨j, hj⟩, hts⟩ := List.forall_mem_cons.1 h
      obtain ⟨js, hjs, hproper, hread⟩ := ih hts
      refine ⟨j :: js, ?_, List.forall_mem_cons.2 ⟨hj.proper, hproper⟩, ?_⟩
      · rw [itemsJson?, hj.toJson?_eq, hjs]
        rfl
      · rw [itemsOfJson?, hj.ofJson?_eq, hread]
        rfl

theorem exists_entriesJson? {es : List (Tree × Tree)} (hkeys : ∀ e ∈ es, ∃ k, e.1 = .text k)
    (h : ∀ e ∈ es, ∃ j, HasDocument e.2 j) :
    ∃ fs, entriesJson? es = .ok fs ∧ (∀ f ∈ fs, f.2.Proper) ∧ entriesOfJson? fs = some es := by
  induction es with
  | nil => exact ⟨[], rfl, List.forall_mem_nil _, rfl⟩
  | cons e es ih =>
      obtain ⟨key, t⟩ := e
      obtain ⟨⟨k, hk⟩, hkeys⟩ := List.forall_mem_cons.1 hkeys
      obtain ⟨⟨j, hj⟩, hes⟩ := List.forall_mem_cons.1 h
      obtain ⟨fs, hfs, hproper, hread⟩ := ih hkeys hes
      obtain rfl : key = .text k := hk
      refine ⟨(k, j) :: fs, ?_, List.forall_mem_cons.2 ⟨hj.proper, hproper⟩, ?_⟩
      · rw [entriesJson?, hj.toJson?_eq, hfs]
        rfl
      · rw [entriesOfJson?, hj.ofJson?_eq, hread]
        rfl

theorem IsData.exists_hasDocument {t : Tree} (h : t.IsData) : ∃ j, HasDocument t j := by
  induction h with
  | null => exact ⟨.null, rfl, .null, rfl⟩
  | bool b => exact ⟨.bool b, rfl, .bool b, rfl⟩
  | integer z =>
      refine ⟨.number (.ofInt z), rfl, .number (isWhole_tens z.natAbs), ?_⟩
      rw [ofJson?, toInt?_ofInt]
      rfl
  | text s => exact ⟨.string s, rfl, .string s, rfl⟩
  | list _ ih =>
      obtain ⟨js, hjs, hproper, hread⟩ := exists_itemsJson? ih
      refine ⟨.array js, ?_, .array hproper, ?_⟩
      · rw [toJson?, hjs]
        rfl
      · rw [ofJson?, hread]
        rfl
  | map hkeys _ ih =>
      obtain ⟨fs, hfs, hproper, hread⟩ := exists_entriesJson? hkeys ih
      refine ⟨.object fs, ?_, .object hproper, ?_⟩
      · rw [toJson?, hfs]
        rfl
      · rw [ofJson?, hread]
        rfl

/-- The text of a tree of data is a compact document, and the tree is read back from it. -/
theorem IsData.exists_serialize_eq {t : Tree} (h : t.IsData) :
    ∃ text, t.serialize = .ok text ∧ Compact text ∧ Conveys ofJson? text t := by
  obtain ⟨j, hj⟩ := h.exists_hasDocument
  refine ⟨j.compact, ?_, hj.proper.compact_compact, hj.proper.conveys_compact hj.ofJson?_eq⟩
  rw [serialize, hj.toJson?_eq]
  rfl

/-- Distinct trees of data have distinct texts. -/
theorem IsData.serialize_inj {t u : Tree} (ht : t.IsData) (hu : u.IsData) :
    t.serialize = u.serialize ↔ t = u := by
  refine ⟨fun h => ?_, congrArg serialize⟩
  obtain ⟨text, htext, -, hconveys⟩ := ht.exists_serialize_eq
  obtain ⟨text', htext', -, hconveys'⟩ := hu.exists_serialize_eq
  obtain rfl : text = text' := Except.ok.inj (htext.symm.trans (h.trans htext'))
  exact hconveys.unique hconveys'

end Tree

end ProgramHost
