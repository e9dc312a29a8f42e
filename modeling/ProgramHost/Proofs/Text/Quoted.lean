import ProgramHost.Proofs.Numeral.Radix
import ProgramHost.Proofs.Text.Spelling
import ProgramHost.Text.Quoted
/-!
# Quoted text is one line and is read back

Each character of a quoted text is spelled by itself or by an escape, and the spelling says
which character it is. A quote stands in the text only behind the backslash that escapes it.
So the text ends where it is closed, and undoing the escapes gives it back. None of its
characters breaks a line or is a control character.
-/

namespace ProgramHost.Text.Quoted

open Numeral

/-! ## Undoing the escapes -/

def shortEscapes : List (Char × Char) :=
  [('0', '\x00'), ('t', '\t'), ('r', '\r'), ('n', '\n'), ('"', '"'), ('\\', '\\')]

def readCodePoint? (cs : List Char) : Option (Char × List Char) :=
  match cs with
  | '\x7b' :: cs =>
      match Radix.spanDigits Radix.hexDigit? cs with
      | (ds, '\x7d' :: rest) => some (Char.ofNat (Radix.ofDigits ds), rest)
      | _ => none
  | _ => none

def readEscape? : List Char → Option (Char × List Char)
  | [] => none
  | e :: cs =>
      if e = 'u' then readCodePoint? cs
      else (shortEscapes.lookup e).map fun c => (c, cs)

def readChar? : List Char → Option (Char × List Char)
  | [] => none
  | c :: cs => if c = '\\' then readEscape? cs else some (c, cs)

def decode? (cs : List Char) : Option (List Char) :=
  match readQuoted? readChar? cs with
  | some (ds, []) => some ds
  | _ => none

/-- How a character is spelled. -/
inductive Spells : List Char → Char → Prop
  | short {e c : Char} : (e, c) ∈ shortEscapes → Spells ['\\', e] c
  | codePoint (c : Char) : Spells (codePoint c) c
  | plain {c : Char} : c ≠ '"' → c ≠ '\\' → isUnprintable c = false → Spells [c] c

theorem spells_escape (c : Char) : Spells (escape c) c := by
  unfold escape
  iterate 6
    split
    · next h =>
        subst h
        exact .short (by decide)
  split
  · exact .codePoint c
  · next hquote hslash hc => exact .plain hquote hslash (Bool.eq_false_of_not_eq_true hc)

theorem Spells.exists_eq_cons {w : List Char} {c : Char} (h : Spells w c) :
    ∃ d ds, w = d :: ds ∧ d ≠ '"' := by
  cases h with
  | short => exact ⟨_, _, rfl, by decide⟩
  | codePoint => exact ⟨_, _, rfl, by decide⟩
  | plain hquote => exact ⟨_, _, rfl, hquote⟩

theorem readCodePoint?_hexadecimal (c : Char) (rest : List Char) :
    readCodePoint? ('\x7b' :: (Radix.hexadecimal c.toNat ++ '\x7d' :: rest)) = some (c, rest) := by
  have hend : ∀ d ∈ ('\x7d' :: rest).head?, Radix.hexDigit? d = none := by
    rintro d ⟨⟩
    decide
  have hspan := Radix.spanDigits_text Radix.hexDigit?_digitChar
    (Radix.digits Radix.sixteen_pos c.toNat) hend
  simp only [readCodePoint?, Radix.hexadecimal, hspan,
    Radix.ofDigits_digits Radix.sixteen_pos (by decide), Char.ofNat_toNat]

theorem Spells.readChar?_append {w : List Char} {c : Char} (h : Spells w c)
    (rest : List Char) : readChar? (w ++ rest) = some (c, rest) := by
  cases h with
  | short hmem =>
      have hread : ∀ p ∈ shortEscapes, p.1 ≠ 'u' ∧ shortEscapes.lookup p.1 = some p.2 := by decide
      obtain ⟨hu, hlookup⟩ := hread _ hmem
      simp only [List.cons_append, List.nil_append, readChar?, if_true, readEscape?, if_neg hu,
        hlookup, Option.map_some]
  | codePoint c =>
      have hread := readCodePoint?_hexadecimal c rest
      simp only [Quoted.codePoint, List.cons_append, List.append_assoc, List.nil_append,
        readChar?, readEscape?, if_true, hread]
  | plain _ hslash => simp only [List.singleton_append, readChar?, if_neg hslash]

theorem spelled_body (cs : List Char) : Spelled Spells (body cs) cs := by
  induction cs with
  | nil => exact .nil
  | cons c cs ih =>
      rw [body_cons]
      exact .cons (spells_escape c) ih

theorem readQuoted?_encode (cs rest : List Char) :
    readQuoted? readChar? (encode cs ++ rest) = some (cs, rest) := by
  have hread := readQuoted?_append (spelled_body cs) Spells.exists_eq_cons
    Spells.readChar?_append rest
  rw [encode, List.cons_append, List.cons_append, List.append_assoc, List.singleton_append]
  exact hread

theorem decode?_encode (cs : List Char) : decode? (encode cs) = some cs := by
  have hread := readQuoted?_encode cs []
  rw [List.append_nil] at hread
  rw [decode?, hread]

theorem encode_injective {cs ds : List Char} (h : encode cs = encode ds) : cs = ds := by
  have hread := decode?_encode cs
  rw [h, decode?_encode] at hread
  exact (Option.some.inj hread).symm

/-! ## One line -/

/-- Each quote stands behind a backslash that is not itself behind one. So a reader that takes a
backslash and what follows it together meets no quote inside the text. -/
inductive QuotesEscaped : List Char → Prop
  | nil : QuotesEscaped []
  | plain {c : Char} {cs : List Char} : c ≠ '"' → c ≠ '\\' → QuotesEscaped cs →
      QuotesEscaped (c :: cs)
  | escaped (c : Char) {cs : List Char} : QuotesEscaped cs → QuotesEscaped ('\\' :: c :: cs)

/-- The control characters, and the separators of lines and paragraphs. -/
def IsControl (c : Char) : Prop :=
  c.toNat < 0x20 ∨ 0x7F ≤ c.toNat ∧ c.toNat < 0xA0 ∨ c = '\u2028' ∨ c = '\u2029'

theorem isUnprintable_of_isControl {c : Char} (h : IsControl c) : isUnprintable c = true := by
  rcases h with hlow | ⟨hfrom, hto⟩ | rfl | rfl
  · have hle : c.toNat ≤ 0x1F := by omega
    rw [isUnprintable, unprintableRanges, inRanges_cons, if_pos hle]
    exact decide_eq_true (Nat.zero_le _)
  · have hgt : ¬ c.toNat ≤ 0x1F := by omega
    have hle : c.toNat ≤ 0xA0 := by omega
    rw [isUnprintable, unprintableRanges, inRanges_cons, if_neg hgt, inRanges_cons, if_pos hle]
    exact decide_eq_true hfrom
  · decide +kernel
  · decide +kernel

theorem quotesEscaped_append_plain {ws cs : List Char} (h : ∀ c ∈ ws, c ≠ '"' ∧ c ≠ '\\')
    (hcs : QuotesEscaped cs) : QuotesEscaped (ws ++ cs) := by
  induction ws with
  | nil => exact hcs
  | cons w ws ih =>
      obtain ⟨⟨hquote, hslash⟩, hws⟩ := List.forall_mem_cons.1 h
      exact .plain hquote hslash (ih hws)

theorem forall_mem_hexadecimal {p : Char → Prop} (h : ∀ d : Fin 16, p (Radix.digitChar d))
    (n : Nat) : ∀ c ∈ Radix.hexadecimal n, p c := by
  intro c hc
  obtain ⟨d, -, rfl⟩ := List.mem_map.1 hc
  exact h d

theorem Spells.quotesEscaped_append {w cs : List Char} {c : Char} (h : Spells w c)
    (hcs : QuotesEscaped cs) : QuotesEscaped (w ++ cs) := by
  cases h with
  | short => exact .escaped _ hcs
  | codePoint c =>
      have hdigits : ∀ d ∈ Radix.hexadecimal c.toNat, d ≠ '"' ∧ d ≠ '\\' :=
        forall_mem_hexadecimal (by decide) c.toNat
      simp only [Quoted.codePoint, List.cons_append, List.append_assoc, List.nil_append]
      exact .escaped 'u' (.plain (by decide) (by decide)
        (quotesEscaped_append_plain hdigits (.plain (by decide) (by decide) hcs)))
  | plain hquote hslash => exact .plain hquote hslash hcs

theorem quotesEscaped_body (cs : List Char) : QuotesEscaped (body cs) := by
  induction cs with
  | nil => exact .nil
  | cons c cs ih =>
      rw [body_cons]
      exact (spells_escape c).quotesEscaped_append ih

theorem not_isControl_of_ascii {c : Char} (h : 0x20 ≤ c.toNat ∧ c.toNat < 0x7F) :
    ¬ IsControl c := by
  rintro (hlow | ⟨hfrom, -⟩ | rfl | rfl)
  · omega
  · omega
  · exact absurd h (by decide)
  · exact absurd h (by decide)

/-- A character without a glyph is spelled by characters that have one. -/
theorem Spells.not_isControl {w : List Char} {c : Char} (h : Spells w c) :
    ∀ d ∈ w, ¬ IsControl d := by
  cases h with
  | short hmem =>
      have hshort : ∀ p ∈ shortEscapes, 0x20 ≤ p.1.toNat ∧ p.1.toNat < 0x7F := by decide
      simp only [List.forall_mem_cons]
      exact ⟨not_isControl_of_ascii (by decide), not_isControl_of_ascii (hshort _ hmem),
        List.forall_mem_nil _⟩
  | codePoint c =>
      have hdigits : ∀ d ∈ Radix.hexadecimal c.toNat, 0x20 ≤ d.toNat ∧ d.toNat < 0x7F :=
        forall_mem_hexadecimal (by decide) c.toNat
      intro d hd
      refine not_isControl_of_ascii ?_
      simp only [Quoted.codePoint, List.cons_append, List.mem_cons, List.mem_append,
        List.not_mem_nil, or_false] at hd
      rcases hd with rfl | rfl | rfl | hd | rfl
      · decide
      · decide
      · decide
      · exact hdigits d hd
      · decide
  | plain _ _ hc =>
      rintro d hd hcontrol
      obtain rfl := List.mem_singleton.1 hd
      exact Bool.false_ne_true (hc.symm.trans (isUnprintable_of_isControl hcontrol))

theorem not_isControl_body (cs : List Char) : ∀ c ∈ body cs, ¬ IsControl c := by
  intro c hc
  obtain ⟨d, -, hd⟩ := List.mem_flatMap.1 hc
  exact (spells_escape d).not_isControl c hd

end ProgramHost.Text.Quoted
