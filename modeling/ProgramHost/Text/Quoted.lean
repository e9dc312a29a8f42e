import ProgramHost.Numeral.Radix
import ProgramHost.Text.Unprintable
/-!
# Quoted text

A text for reading stands between double quotes on one line. The quote, the
backslash, the tabulator, the line breaks and the character zero have escapes of
two characters; any other character without a glyph is written by its code
point, and all the rest stand for themselves.
-/

namespace ProgramHost.Text.Quoted

def codePoint (c : Char) : List Char :=
  '\\' :: 'u' :: '\x7b' :: Numeral.Radix.hexadecimal c.toNat ++ ['\x7d']

def escape (c : Char) : List Char :=
  if c = '\x00' then ['\\', '0']
  else if c = '\t' then ['\\', 't']
  else if c = '\r' then ['\\', 'r']
  else if c = '\n' then ['\\', 'n']
  else if c = '"' then ['\\', '"']
  else if c = '\\' then ['\\', '\\']
  else if isUnprintable c then codePoint c
  else [c]

def body (cs : List Char) : List Char :=
  cs.flatMap escape

def encode (cs : List Char) : List Char :=
  '"' :: body cs ++ ['"']

@[simp] theorem body_nil : body [] = [] := rfl

theorem body_cons (c : Char) (cs : List Char) :
    body (c :: cs) = escape c ++ body cs := by
  simp [body]

theorem body_append (cs ds : List Char) :
    body (cs ++ ds) = body cs ++ body ds := by
  simp [body]

end ProgramHost.Text.Quoted
