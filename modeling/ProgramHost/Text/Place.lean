import ProgramHost.Numeral.Radix
/-!
# A place at the end of a message

A message may end in ` at line L column C`. Such an ending is read as the place
that the message is about, and when the message is told again the place is
written anew. Its numbers then have no zeros in front, and a place whose line is
zero is no place and is left out. A number that has no 64 bits is not read.
-/

namespace ProgramHost.Text

/-- Splits a text at the last occurrence of a part, which is left out. -/
def splitLast? (part : List Char) : List Char → Option (List Char × List Char)
  | [] => none
  | c :: cs =>
      match splitLast? part cs with
      | some (before, after) => some (c :: before, after)
      | none =>
          if part.isPrefixOf (c :: cs) then some ([], (c :: cs).drop part.length) else none

structure Place where
  line : Nat
  column : Nat
  deriving DecidableEq, Repr

namespace Place

def lineMark : List Char := " at line ".toList

def columnMark : List Char := " column ".toList

def bound : Nat := 18446744073709551616

def number? (cs : List Char) : Option Nat :=
  (Numeral.Radix.readDecimal? cs).filter fun n => n < bound

def ofText? (cs : List Char) : Option Place :=
  let rest := cs.dropWhile Char.isDigit
  if columnMark.isPrefixOf rest then
    match number? (cs.takeWhile Char.isDigit), number? (rest.drop columnMark.length) with
    | some line, some column => some ⟨line, column⟩
    | _, _ => none
  else none

def text (p : Place) : List Char :=
  if p.line = 0 then []
  else lineMark ++ Numeral.Radix.decimal p.line ++ columnMark ++ Numeral.Radix.decimal p.column

def split? (message : List Char) : Option (List Char × Place) :=
  match splitLast? lineMark message with
  | some (before, after) => (ofText? after).map fun p => (before, p)
  | none => none

/-- The message as it is told again. -/
def restate (message : List Char) : List Char :=
  match split? message with
  | some (before, p) => before ++ p.text
  | none => message

theorem text_of_line_eq_zero {p : Place} (h : p.line = 0) : p.text = [] := by
  simp [text, h]

theorem restate_of_split?_eq_none {message : List Char} (h : split? message = none) :
    restate message = message := by
  simp [restate, h]

end Place

end ProgramHost.Text
