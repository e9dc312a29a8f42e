import ProgramHost.Json.Printer
import ProgramHost.Proofs.Numeral.Literal
import ProgramHost.Proofs.Text.Spelling
/-!
# The grammar of documents

`Written cs j` is the grammar of RFC 8259: the characters `cs` are the value `j`. Blanks may
stand around each value and around the punctuation. In a string a character stands for
itself, or has an escape of two characters, or is given by its code point; one above U+FFFF is
then given by two halves, and a half alone is no character.
-/

namespace ProgramHost.Json

open Numeral

def isBlank (c : Char) : Bool :=
  c = ' ' || c = '\t' || c = '\n' || c = '\r'

def Blank (cs : List Char) : Prop := ∀ c ∈ cs, isBlank c = true

def shortEscapes : List (Char × Char) :=
  [('"', '"'), ('\\', '\\'), ('/', '/'), ('b', '\x08'), ('f', '\x0c'), ('n', '\n'),
    ('r', '\r'), ('t', '\t')]

/-- Four hexadecimal digits and their number. -/
inductive WrittenUnit : List Char → Nat → Prop
  | intro {a b c d : Char} {ds : List (Fin 16)} :
      [a, b, c, d].mapM Radix.hexDigit? = some ds → WrittenUnit [a, b, c, d] (Radix.ofDigits ds)

/-- The number is the first half of a character above U+FFFF. -/
def IsHigh (n : Nat) : Prop := 0xD800 ≤ n ∧ n < 0xDC00

def IsLow (n : Nat) : Prop := 0xDC00 ≤ n ∧ n < 0xE000

instance (n : Nat) : Decidable (IsHigh n) := inferInstanceAs (Decidable (_ ∧ _))

instance (n : Nat) : Decidable (IsLow n) := inferInstanceAs (Decidable (_ ∧ _))

def joined (high low : Nat) : Char :=
  Char.ofNat (0x10000 + (high - 0xD800) * 0x400 + (low - 0xDC00))

/-- The characters stand for one character of a string: it stands for itself, unless it is a quote,
a backslash or a control character, or it is escaped, above U+FFFF in two halves. -/
inductive WrittenChar : List Char → Char → Prop
  | plain {c : Char} : c ≠ '"' → c ≠ '\\' → 0x20 ≤ c.toNat → WrittenChar [c] c
  | short {e c : Char} : shortEscapes.lookup e = some c → WrittenChar ['\\', e] c
  | unit {us : List Char} {n : Nat} : WrittenUnit us n → ¬ IsHigh n → ¬ IsLow n →
      WrittenChar ('\\' :: 'u' :: us) (Char.ofNat n)
  | halves {us vs : List Char} {high low : Nat} : WrittenUnit us high → WrittenUnit vs low →
      IsHigh high → IsLow low →
      WrittenChar ('\\' :: 'u' :: (us ++ '\\' :: 'u' :: vs)) (joined high low)

inductive WrittenString : List Char → String → Prop
  | intro {ws : List Char} {s : String} : Text.Spelled WrittenChar ws s.toList →
      WrittenString ('"' :: (ws ++ ['"'])) s

/-- The characters are parts with commas between them. -/
inductive Separated {α : Type} (part : List Char → α → Prop) : List Char → List α → Prop
  | one {cs : List Char} {x : α} : part cs x → Separated part cs [x]
  | more {cs ds : List Char} {x : α} {xs : List α} : part cs x → Separated part ds xs →
      Separated part (cs ++ ',' :: ds) (x :: xs)

mutual

/-- The characters are the value, with no blanks around it. This is the grammar of documents, and
the texts that are written here are only some of those that it has. -/
inductive Written : List Char → Json → Prop
  | null : Written ['n', 'u', 'l', 'l'] .null
  | bool (b : Bool) : Written (boolText b) (.bool b)
  | number {cs : List Char} {n : Numeral} : Numeral.Written cs n → Written cs (.number n)
  | string {cs : List Char} {s : String} : WrittenString cs s → Written cs (.string s)
  | emptyArray {bs : List Char} : Blank bs → Written ('[' :: (bs ++ [']'])) (.array [])
  | array {cs : List Char} {js : List Json} : Separated WrittenElement cs js →
      Written ('[' :: (cs ++ [']'])) (.array js)
  | emptyObject {bs : List Char} : Blank bs →
      Written ('\x7b' :: (bs ++ ['\x7d'])) (.object [])
  | object {cs : List Char} {fs : List (String × Json)} : Separated WrittenField cs fs →
      Written ('\x7b' :: (cs ++ ['\x7d'])) (.object fs)

/-- The characters are the value, perhaps with blanks around it. -/
inductive WrittenElement : List Char → Json → Prop
  | intro {bs cs bs' : List Char} {j : Json} : Blank bs → Written cs j → Blank bs' →
      WrittenElement (bs ++ (cs ++ bs')) j

inductive WrittenField : List Char → String × Json → Prop
  | intro {bs ks bs' cs : List Char} {k : String} {j : Json} : Blank bs → WrittenString ks k →
      Blank bs' → WrittenElement cs j → WrittenField (bs ++ (ks ++ (bs' ++ ':' :: cs))) (k, j)

end

theorem blank_nil : Blank [] := by
  rintro c ⟨⟩

theorem Written.element {cs : List Char} {j : Json} (h : Written cs j) : WrittenElement cs j := by
  have helement := WrittenElement.intro blank_nil h blank_nil
  rwa [List.nil_append, List.append_nil] at helement

end ProgramHost.Json
