import ProgramHost.Numeral.Basic
import ProgramHost.Proofs.Numeral.Radix
/-!
# Number literals

`Written cs n` is the grammar of a number in a document: a sign, digits without a zero in
front of others, perhaps a point and digits, perhaps an exponent. `read?` reads the longest
literal at the beginning of a text. It finds every literal that the grammar has, whatever
comes after it, as long as the literal does not go on.
-/

namespace ProgramHost.Numeral

open Radix

/-- The digits before a point: at least one, and no zero in front of others. -/
def isWhole : List Digit → Bool
  | [] => false
  | [_] => true
  | d :: _ => d.val != 0

def Proper (n : Numeral) : Prop := isWhole n.whole = true

/-- How an exponent is written: with either mark, and with a sign or without one. -/
inductive WrittenExponent : List Char → Option Int → Prop
  | none : WrittenExponent [] none
  | unsigned {mark : Char} {ds : List Digit} : mark = 'e' ∨ mark = 'E' → ds ≠ [] →
      WrittenExponent (mark :: Radix.text ds) (some (ofDigits ds))
  | plus {mark : Char} {ds : List Digit} : mark = 'e' ∨ mark = 'E' → ds ≠ [] →
      WrittenExponent (mark :: '+' :: Radix.text ds) (some (ofDigits ds))
  | minus {mark : Char} {ds : List Digit} : mark = 'e' ∨ mark = 'E' → ds ≠ [] →
      WrittenExponent (mark :: '-' :: Radix.text ds) (some (-ofDigits ds))

/-- The text is a number as documents have it, and it is the literal: a whole part without a zero
in front of others, and a fraction and an exponent only with digits. -/
inductive Written : List Char → Numeral → Prop
  | intro {n : Numeral} {es : List Char} : n.Proper → WrittenExponent es n.exponent →
      Written (signText n.negative ++ Radix.text n.whole ++ fractionText n.fraction ++ es) n

/-! ## Reading -/

def readSign : List Char → Bool × List Char
  | '-' :: cs => (true, cs)
  | cs => (false, cs)

def readDigits? (cs : List Char) : Option (List Digit × List Char) :=
  if (spanDigits digit? cs).1 = [] then none else some (spanDigits digit? cs)

def readFraction? : List Char → Option (List Digit × List Char)
  | '.' :: cs => readDigits? cs
  | cs => some ([], cs)

def readSigned? : List Char → Option (Int × List Char)
  | '+' :: cs => (readDigits? cs).map fun (ds, rest) => ((ofDigits ds : Int), rest)
  | '-' :: cs => (readDigits? cs).map fun (ds, rest) => (-(ofDigits ds : Int), rest)
  | cs => (readDigits? cs).map fun (ds, rest) => ((ofDigits ds : Int), rest)

def readExponent? : List Char → Option (Option Int × List Char)
  | [] => some (none, [])
  | c :: cs =>
      if c = 'e' ∨ c = 'E' then (readSigned? cs).map fun (e, rest) => (some e, rest)
      else some (none, c :: cs)

/-- The literal at the beginning of a text, and the rest. -/
def read? (cs : List Char) : Option (Numeral × List Char) := do
  let (negative, cs) := readSign cs
  let (whole, cs) ← readDigits? cs
  if isWhole whole then
    let (fraction, cs) ← readFraction? cs
    let (exponent, cs) ← readExponent? cs
    return (⟨negative, whole, fraction, exponent⟩, cs)
  else none

/-! ## Reading what is written -/

def EndsDigits (cs : List Char) : Prop := ∀ c ∈ cs.head?, digit? c = none

/-- The text does not go on with anything that a literal could have. -/
def EndsLiteral (cs : List Char) : Prop :=
  ∀ c ∈ cs.head?, digit? c = none ∧ c ≠ '.' ∧ c ≠ 'e' ∧ c ≠ 'E'

theorem EndsLiteral.endsDigits {cs : List Char} (h : EndsLiteral cs) : EndsDigits cs :=
  fun c hc => (h c hc).1

theorem endsLiteral_nil : EndsLiteral [] := by
  rintro c ⟨⟩

theorem readDigits?_text {ds : List Digit} (hds : ds ≠ []) {rest : List Char}
    (h : EndsDigits rest) : readDigits? (Radix.text ds ++ rest) = some (ds, rest) := by
  rw [readDigits?, spanDigits_text digit?_digitChar ds h, if_neg hds]

theorem isWhole_ne_nil {ds : List Digit} (h : isWhole ds = true) : ds ≠ [] := by
  rintro rfl
  cases h

theorem exists_text_eq_cons {ds : List Digit} (h : ds ≠ []) :
    ∃ c cs d, Radix.text ds = c :: cs ∧ digit? c = some d := by
  cases ds with
  | nil => exact absurd rfl h
  | cons d ds => exact ⟨_, _, d, rfl, digit?_digitChar d⟩

theorem head_text_ne_minus {ds : List Digit} (h : ds ≠ []) (rest : List Char) :
    ∀ c ∈ (Radix.text ds ++ rest).head?, c ≠ '-' := by
  obtain ⟨c, cs, d, htext, hc⟩ := exists_text_eq_cons h
  rw [htext]
  rintro c' ⟨⟩ rfl
  cases hc

theorem readSign_signText (negative : Bool) {cs : List Char} (h : ∀ c ∈ cs.head?, c ≠ '-') :
    readSign (signText negative ++ cs) = (negative, cs) := by
  cases negative with
  | true => rfl
  | false =>
      rw [signText, List.nil_append]
      unfold readSign
      split
      · exact absurd rfl (h '-' rfl)
      · rfl

theorem readFraction?_fractionText (ds : List Digit) {rest : List Char} (h : EndsDigits rest)
    (hpoint : ∀ c ∈ rest.head?, c ≠ '.') :
    readFraction? (fractionText ds ++ rest) = some (ds, rest) := by
  cases ds with
  | nil =>
      rw [fractionText, List.nil_append]
      unfold readFraction?
      split
      · exact absurd rfl (hpoint '.' rfl)
      · rfl
  | cons d ds => exact readDigits?_text (List.cons_ne_nil d ds) h

theorem readSigned?_unsigned {ds : List Digit} (hds : ds ≠ []) {rest : List Char}
    (h : EndsDigits rest) :
    readSigned? (Radix.text ds ++ rest) = some ((ofDigits ds : Int), rest) := by
  obtain ⟨c, cs, d, htext, hc⟩ := exists_text_eq_cons hds
  have hread := readDigits?_text hds h
  rw [htext, List.cons_append] at hread ⊢
  unfold readSigned?
  split
  · next heq =>
      obtain ⟨rfl, -⟩ := List.cons.inj heq
      cases hc
  · next heq =>
      obtain ⟨rfl, -⟩ := List.cons.inj heq
      cases hc
  · rw [hread]
    rfl

theorem readExponent?_mark {mark : Char} (hmark : mark = 'e' ∨ mark = 'E') (cs : List Char) :
    readExponent? (mark :: cs) = (readSigned? cs).map fun (e, rest) => (some e, rest) :=
  if_pos hmark

theorem readExponent?_written {es : List Char} {e : Option Int} (h : WrittenExponent es e)
    {rest : List Char} (hrest : EndsLiteral rest) :
    readExponent? (es ++ rest) = some (e, rest) := by
  cases h with
  | none =>
      cases rest with
      | nil => rfl
      | cons c rest =>
          obtain ⟨-, -, he, hE⟩ := hrest c rfl
          exact if_neg (not_or.2 ⟨he, hE⟩)
  | unsigned hmark hds =>
      rw [List.cons_append, readExponent?_mark hmark,
        readSigned?_unsigned hds hrest.endsDigits]
      rfl
  | plus hmark hds =>
      rw [List.cons_append, readExponent?_mark hmark, List.cons_append, readSigned?,
        readDigits?_text hds hrest.endsDigits]
      rfl
  | minus hmark hds =>
      rw [List.cons_append, readExponent?_mark hmark, List.cons_append, readSigned?,
        readDigits?_text hds hrest.endsDigits]
      rfl

theorem endsDigits_of_writtenExponent {es : List Char} {e : Option Int}
    (h : WrittenExponent es e) {rest : List Char} (hrest : EndsLiteral rest) :
    EndsDigits (es ++ rest) ∧ ∀ c ∈ (es ++ rest).head?, c ≠ '.' := by
  have hmark : ∀ {mark : Char}, mark = 'e' ∨ mark = 'E' → digit? mark = none ∧ mark ≠ '.' := by
    rintro mark (rfl | rfl) <;> decide
  cases h with
  | none => exact ⟨hrest.endsDigits, fun c hc => (hrest c hc).2.1⟩
  | unsigned h =>
      refine ⟨?_, ?_⟩ <;> rintro c ⟨⟩
      · exact (hmark h).1
      · exact (hmark h).2
  | plus h =>
      refine ⟨?_, ?_⟩ <;> rintro c ⟨⟩
      · exact (hmark h).1
      · exact (hmark h).2
  | minus h =>
      refine ⟨?_, ?_⟩ <;> rintro c ⟨⟩
      · exact (hmark h).1
      · exact (hmark h).2

theorem endsDigits_fractionText (ds : List Digit) {cs : List Char} (h : EndsDigits cs) :
    EndsDigits (fractionText ds ++ cs) := by
  cases ds with
  | nil => exact h
  | cons d ds =>
      rintro c ⟨⟩
      decide

theorem Written.exists_eq_cons {cs : List Char} {n : Numeral} (h : Written cs n) :
    ∃ c ds, cs = c :: ds ∧ (c = '-' ∨ ∃ d, digit? c = some d) := by
  obtain @⟨n, es, hwhole, -⟩ := h
  cases hsign : n.negative with
  | true => exact ⟨'-', _, rfl, .inl rfl⟩
  | false =>
      obtain ⟨c, ds, d, htext, hc⟩ := exists_text_eq_cons (isWhole_ne_nil hwhole)
      rw [htext]
      exact ⟨c, _, rfl, .inr ⟨d, hc⟩⟩

/-- A literal is read from the beginning of a text, if it does not go on there. -/
theorem Written.read?_append {cs : List Char} {n : Numeral} (h : Written cs n)
    {rest : List Char} (hrest : EndsLiteral rest) : read? (cs ++ rest) = some (n, rest) := by
  obtain @⟨n, es, hwhole, hes⟩ := h
  have hne := isWhole_ne_nil hwhole
  obtain ⟨hends, hpoint⟩ := endsDigits_of_writtenExponent hes hrest
  have hfraction := readFraction?_fractionText n.fraction hends hpoint
  have hdigits := readDigits?_text hne (endsDigits_fractionText n.fraction hends)
  have hsign := readSign_signText n.negative (head_text_ne_minus hne
    (fractionText n.fraction ++ (es ++ rest)))
  simp only [List.append_assoc]
  rw [read?, hsign]
  simp only [hdigits, Option.bind_eq_bind, Option.bind_some, hfraction,
    readExponent?_written hes hrest]
  exact if_pos hwhole

def ofText? (cs : List Char) : Option Numeral :=
  match read? cs with
  | some (n, []) => some n
  | _ => none

theorem Written.ofText?_eq {cs : List Char} {n : Numeral} (h : Written cs n) :
    ofText? cs = some n := by
  have hread := h.read?_append endsLiteral_nil
  rw [List.append_nil] at hread
  rw [ofText?, hread]

/-- The text of a literal is a number as documents have it. -/
theorem Proper.written_text {n : Numeral} (h : n.Proper) : Written n.text n := by
  refine .intro h ?_
  obtain ⟨negative, whole, fraction, exponent⟩ := n
  cases exponent with
  | none => exact .none
  | some e =>
      have hds := tens_ne_nil e.natAbs
      rcases Int.lt_or_le e 0 with hlt | hge
      · have habs : e = -ofDigits (tens e.natAbs) := by
          rw [ofDigits_tens]
          omega
        have hwritten := WrittenExponent.minus (.inl rfl) hds
        rw [← habs] at hwritten
        simp only [exponentText, hlt, if_true]
        exact hwritten
      · have habs : e = ofDigits (tens e.natAbs) := by
          rw [ofDigits_tens]
          omega
        have hwritten := WrittenExponent.plus (.inl rfl) hds
        rw [← habs] at hwritten
        simp only [exponentText, Int.not_lt.2 hge, if_false]
        exact hwritten

theorem Proper.ofText?_text {n : Numeral} (h : n.Proper) : ofText? n.text = some n :=
  h.written_text.ofText?_eq

theorem isWhole_tens (n : Nat) : isWhole (tens n) = true := by
  rcases Nat.eq_zero_or_pos n with rfl | h
  · rfl
  · obtain ⟨d, ds, hds, hd⟩ := exists_tens_eq_cons h
    rw [hds]
    cases ds with
    | nil => rfl
    | cons e es => exact bne_iff_ne.2 hd

theorem proper_ofNat (n : Nat) : (Numeral.ofNat n).Proper :=
  isWhole_tens n

end ProgramHost.Numeral
