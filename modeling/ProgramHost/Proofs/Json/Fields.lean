import ProgramHost.Proofs.Json.Printer
/-!
# Looking into a document

The parts of a document are found by their names, and read as texts and numbers. If the names
of an object are distinct, then it makes no difference in what order the fields stand.
-/

namespace ProgramHost.Json

open Numeral

def names : Json → List String
  | .object fs => fs.map Prod.fst
  | _ => []

def field? (name : String) : Json → Option Json
  | .object fs => fs.lookup name
  | _ => none

def items? : Json → Option (List Json)
  | .array js => some js
  | _ => none

def string? : Json → Option String
  | .string s => some s
  | _ => none

def nat? : Json → Option Nat
  | .number ⟨false, whole, [], none⟩ => some (Radix.ofDigits whole)
  | _ => none

def word? (j : Json) : Option UInt32 :=
  j.nat?.bind fun n => if n < UInt32.size then some (UInt32.ofNat n) else none

theorem nat?_nat (n : Nat) : (Json.nat n).nat? = some n :=
  congrArg some (Radix.ofDigits_tens n)

theorem word?_nat (w : UInt32) : (Json.nat w.toNat).word? = some w := by
  rw [word?, nat?_nat, Option.bind_some, if_pos w.toNat_lt, UInt32.ofNat_toNat]

theorem nat_injective {m n : Nat} (h : Json.nat m = Json.nat n) : m = n := by
  have hread := nat?_nat m
  rw [h, nat?_nat] at hread
  exact (Option.some.inj hread).symm

/-! ## The order of the fields -/

theorem sorted_nat (n : Nat) : (Json.nat n).sorted = Json.nat n := by
  simp [Json.nat, Json.sorted]

theorem lookup_cons (name k : String) (j : Json) (fs : List (String × Json)) :
    ((k, j) :: fs).lookup name = if name = k then some j else fs.lookup name := by
  by_cases h : name = k
  · rw [if_pos h, List.lookup_cons, beq_iff_eq.2 h]
  · rw [if_neg h, List.lookup_cons, beq_eq_false_iff_ne.2 h]

theorem lookup_insertField {f : String × Json} {fs : List (String × Json)}
    (h : f.1 ∉ fs.map Prod.fst) (name : String) :
    (insertField f fs).lookup name = (f :: fs).lookup name := by
  induction fs with
  | nil => rfl
  | cons g gs ih =>
      rw [List.map_cons, List.mem_cons, not_or] at h
      rw [insertField]
      split
      · rw [lookup_cons, ih h.2, lookup_cons, lookup_cons, lookup_cons]
        by_cases hf : name = f.1
        · rw [if_pos hf, if_pos hf, if_neg fun hg => h.1 (hf.symm.trans hg)]
        · rw [if_neg hf, if_neg hf]
      · rfl

theorem lookup_sortFields {fs : List (String × Json)} (h : (fs.map Prod.fst).Nodup)
    (name : String) : (sortFields fs).lookup name = fs.lookup name := by
  induction fs with
  | nil => rfl
  | cons f fs ih =>
      rw [List.map_cons, List.nodup_cons] at h
      have hnot : f.1 ∉ (sortFields fs).map Prod.fst := by
        simpa only [List.mem_map, mem_sortFields_iff] using h.1
      rw [sortFields_cons, lookup_insertField hnot, lookup_cons, lookup_cons, ih h.2]

theorem lookup_sortedFields (fs : List (String × Json)) (name : String) :
    (sortedFields fs).lookup name = (fs.lookup name).map sorted := by
  induction fs with
  | nil => rfl
  | cons f fs ih =>
      rw [sortedFields, lookup_cons, lookup_cons, ih]
      split <;> rfl

/-- A field is found by its name whatever the order. -/
theorem field?_sorted {j : Json} (h : j.names.Nodup) (name : String) :
    j.sorted.field? name = (j.field? name).map sorted := by
  cases j with
  | object fs =>
      have hnames : ((sortedFields fs).map Prod.fst).Nodup := by
        rw [sortedFields_eq_map, List.map_map]
        exact h
      rw [Json.sorted, field?, lookup_sortFields hnames, lookup_sortedFields, field?]
  | array js => simp [Json.sorted, field?]
  | null => rfl
  | bool b => rfl
  | number n => rfl
  | string s => rfl

/-! ## The two forms of a document -/

/-- The document `j` is `k`, with the fields as they were given or all in the order of their
names. -/
def Form (k j : Json) : Prop := j = k ∨ j = k.sorted

namespace Form

variable {k j c : Json} {name : String}

theorem exists_field? (h : Form k j) (hk : k.names.Nodup) (hc : k.field? name = some c) :
    ∃ d, j.field? name = some d ∧ Form c d := by
  rcases h with rfl | rfl
  · exact ⟨c, hc, .inl rfl⟩
  · rw [field?_sorted hk, hc]
    exact ⟨c.sorted, rfl, .inr rfl⟩

theorem field?_eq (h : Form k j) (hk : k.names.Nodup) (hc : k.field? name = some c)
    (hsorted : c.sorted = c) : j.field? name = some c := by
  obtain ⟨d, hd, rfl | rfl⟩ := h.exists_field? hk hc
  · exact hd
  · exact hd.trans (congrArg some hsorted)

end Form

end ProgramHost.Json
