import ProgramHost.Proofs.Json.Printer
/-!
# Texts without blanks

In a document blanks mean nothing, unless they stand in a string. `outside` takes the strings
out of a text, and a text is compact if no blank is left. A string of the grammar is taken out
as a whole, since no quote in it stands free; so the compact text of a document is compact
whatever its strings hold.
-/

namespace ProgramHost.Json

open Numeral

mutual

/-- What a text has outside of its strings. -/
def outside : List Char → List Char
  | [] => []
  | c :: cs => if c = '"' then inside cs else c :: outside cs

def inside : List Char → List Char
  | [] => []
  | c :: cs => if c = '"' then outside cs else if c = '\\' then escaped cs else inside cs

def escaped : List Char → List Char
  | [] => []
  | _ :: cs => inside cs

end

/-- No blank stands outside of the strings. -/
def Compact (t : String) : Prop := ∀ c ∈ outside t.toList, isBlank c = false

instance (t : String) : Decidable (Compact t) := List.decidableBAll _ _

/-! ## Strings are taken out -/

theorem inside_plain {c : Char} (hquote : c ≠ '"') (hslash : c ≠ '\\') (cs : List Char) :
    inside (c :: cs) = inside cs := by
  rw [inside, if_neg hquote, if_neg hslash]

theorem inside_escape (e : Char) (cs : List Char) : inside ('\\' :: e :: cs) = inside cs := by
  rw [inside, if_neg (by decide), if_pos rfl, escaped]

theorem inside_hexDigits {cs : List Char} {ds : List (Fin 16)}
    (h : cs.mapM Radix.hexDigit? = some ds) (rest : List Char) :
    inside (cs ++ rest) = inside rest := by
  induction cs generalizing ds with
  | nil => rfl
  | cons c cs ih =>
      rw [List.mapM_cons, Option.bind_eq_bind, Option.bind_eq_some_iff] at h
      obtain ⟨d, hd, h⟩ := h
      obtain ⟨es, hes, -⟩ := Option.bind_eq_some_iff.1 h
      have hquote : c ≠ '"' := by
        rintro rfl
        cases hd
      have hslash : c ≠ '\\' := by
        rintro rfl
        cases hd
      rw [List.cons_append, inside_plain hquote hslash, ih hes]

theorem WrittenUnit.inside_append {us : List Char} {n : Nat} (h : WrittenUnit us n)
    (rest : List Char) : inside (us ++ rest) = inside rest := by
  obtain ⟨hds⟩ := h
  exact inside_hexDigits hds rest

theorem WrittenChar.inside_append {w : List Char} {c : Char} (h : WrittenChar w c)
    (rest : List Char) : inside (w ++ rest) = inside rest := by
  cases h with
  | plain hquote hslash => exact inside_plain hquote hslash rest
  | short => exact inside_escape _ rest
  | unit hunit => exact (inside_escape 'u' _).trans (hunit.inside_append rest)
  | @halves us vs _ _ hunit hunit' =>
      rw [List.cons_append, List.cons_append, inside_escape, List.append_assoc,
        hunit.inside_append, List.cons_append, List.cons_append, inside_escape,
        hunit'.inside_append]

theorem WrittenString.outside_append {cs : List Char} {s : String} (h : WrittenString cs s)
    (rest : List Char) : outside (cs ++ rest) = outside rest := by
  obtain @⟨ws, s, hws⟩ := h
  rw [List.cons_append, outside, if_pos rfl, List.append_assoc, List.singleton_append]
  generalize s.toList = cs at hws
  induction hws with
  | nil => rw [List.nil_append, inside, if_pos rfl]
  | cons hw _ ih => rw [List.append_assoc, hw.inside_append, ih]

/-! ## No blank is left -/

/-- Whatever comes next, no blank is left of the characters, and no string goes on. -/
def Tight (cs : List Char) : Prop :=
  ∀ rest, ∃ ds, outside (cs ++ rest) = ds ++ outside rest ∧ ∀ c ∈ ds, isBlank c = false

theorem tight_nil : Tight [] := fun _ => ⟨[], rfl, List.forall_mem_nil _⟩

theorem Tight.append {cs ds : List Char} (hcs : Tight cs) (hds : Tight ds) : Tight (cs ++ ds) := by
  intro rest
  obtain ⟨es, hes, hblank⟩ := hcs (ds ++ rest)
  obtain ⟨es', hes', hblank'⟩ := hds rest
  refine ⟨es ++ es', ?_, List.forall_mem_append.2 ⟨hblank, hblank'⟩⟩
  rw [List.append_assoc, hes, hes', List.append_assoc]

def isSolid (c : Char) : Bool := c ≠ '"' && !isBlank c

theorem tight_of_solid {cs : List Char} (h : ∀ c ∈ cs, isSolid c = true) : Tight cs := by
  simp only [isSolid, Bool.and_eq_true, decide_eq_true_eq, Bool.not_eq_true'] at h
  refine fun rest => ⟨cs, ?_, fun c hc => (h c hc).2⟩
  induction cs with
  | nil => rfl
  | cons c cs ih =>
      obtain ⟨⟨hquote, -⟩, hcs⟩ := List.forall_mem_cons.1 h
      rw [List.cons_append, outside, if_neg hquote, ih hcs, List.cons_append]

theorem tight_of_mark : ∀ c ∈ marks, Tight [c] := by
  have hsolid : ∀ c ∈ marks, isSolid c = true := by simp [marks, isSolid, isBlank]
  exact fun c hc => tight_of_solid (List.forall_mem_singleton.2 (hsolid c hc))

theorem tight_quoted (s : String) : Tight (quoted s) := fun rest =>
  ⟨[], (writtenString_quoted s).outside_append rest, List.forall_mem_nil _⟩

theorem holdsOfParts_tight : HoldsOfParts Tight where
  nil := tight_nil
  append := Tight.append
  mark := tight_of_mark
  null := tight_of_solid (by simp [isSolid, isBlank])
  bool b := tight_of_solid (by cases b <;> simp [boolText, isSolid, isBlank])
  number n := tight_of_solid (forall_mem_numeral (by decide) (by simp [isSolid, isBlank]) n)
  string := tight_quoted

theorem Proper.compact_compact {j : Json} (h : j.Proper) : Compact j.compact := by
  obtain ⟨ds, hds, hblank⟩ := holdsOfParts_tight.text h []
  rw [outside, List.append_nil, List.append_nil] at hds
  rw [Compact, Json.compact, String.toList_ofList, hds]
  exact hblank

/-- A blank in a string counts for nothing, also behind a quote that is escaped. -/
example : Compact "[\" \\\" \",0]" ∧ ¬ Compact "[\" \\\" \", 0]" := by
  decide +kernel

end ProgramHost.Json
