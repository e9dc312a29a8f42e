import Mathlib.Order.Basic
/-!
# Text up to a closing quote

Inside quotes each character of a text is spelled by one or more characters. No spelling
begins with the quote, so the first quote that begins a spelling closes the text. `readTo?`
takes one spelling after the other, and finds the text whatever comes after the quote.
-/

namespace ProgramHost.Text

/-- The characters spell the text, one character after the other. -/
inductive Spelled (spells : List Char → Char → Prop) : List Char → List Char → Prop
  | nil : Spelled spells [] []
  | cons {w ws : List Char} {c : Char} {cs : List Char} : spells w c → Spelled spells ws cs →
      Spelled spells (w ++ ws) (c :: cs)

def readTo? (read? : List Char → Option (Char × List Char)) :
    Nat → List Char → Option (List Char × List Char)
  | 0, _ => none
  | fuel + 1, cs =>
      match cs with
      | '"' :: rest => some ([], rest)
      | cs => do
          let (c, cs) ← read? cs
          let (ds, cs) ← readTo? read? fuel cs
          return (c :: ds, cs)

def readQuoted? (read? : List Char → Option (Char × List Char)) :
    List Char → Option (List Char × List Char)
  | '"' :: cs => readTo? read? cs.length cs
  | _ => none

variable {spells : List Char → Char → Prop} {read? : List Char → Option (Char × List Char)}
  {ws cs : List Char}

theorem readTo?_append (h : Spelled spells ws cs)
    (hbegin : ∀ {w c}, spells w c → ∃ d ds, w = d :: ds ∧ d ≠ '"')
    (hread : ∀ {w c}, spells w c → ∀ rest, read? (w ++ rest) = some (c, rest))
    (rest : List Char) {fuel : Nat} (hfuel : ws.length < fuel) :
    readTo? read? fuel (ws ++ '"' :: rest) = some (cs, rest) := by
  induction h generalizing fuel with
  | nil =>
      obtain ⟨fuel, rfl⟩ := Nat.exists_eq_succ_of_ne_zero (Nat.ne_zero_of_lt hfuel)
      rfl
  | @cons w ws c cs hw hws ih =>
      obtain ⟨fuel, rfl⟩ := Nat.exists_eq_succ_of_ne_zero (Nat.ne_zero_of_lt hfuel)
      obtain ⟨d, ds, rfl, hd⟩ := hbegin hw
      have hrest : ws.length < fuel := by
        simp only [List.length_append, List.length_cons] at hfuel
        omega
      have hchar := hread hw (ws ++ '"' :: rest)
      rw [List.cons_append] at hchar
      rw [List.append_assoc, List.cons_append, readTo?]
      · simp only [hchar, Option.bind_eq_bind, Option.bind_some, ih hrest]
        rfl
      · intro rest' heq
        exact hd (List.cons.inj heq).1

/-- A text in quotes is read whatever comes after it. -/
theorem readQuoted?_append (h : Spelled spells ws cs)
    (hbegin : ∀ {w c}, spells w c → ∃ d ds, w = d :: ds ∧ d ≠ '"')
    (hread : ∀ {w c}, spells w c → ∀ rest, read? (w ++ rest) = some (c, rest))
    (rest : List Char) : readQuoted? read? ('"' :: (ws ++ '"' :: rest)) = some (cs, rest) := by
  refine readTo?_append h hbegin hread rest ?_
  simp only [List.length_append, List.length_cons]
  omega

end ProgramHost.Text
