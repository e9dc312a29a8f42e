import ProgramHost.Json.Basic
/-!
# The compact text of a document

The text has no blanks. In a string the quote, the backslash and the characters
below U+0020 are written as escapes, the shortest that JSON has for each; all
others, U+007F too, stand for themselves.
-/

namespace ProgramHost.Json

/-- The escape `\u00xx` of a control character. -/
def unicodeEscape (c : Char) : List Char :=
  '\\' :: 'u' :: '0' :: '0' :: Nat.digitChar (c.toNat / 16) ::
    Nat.digitChar (c.toNat % 16) :: []

def escape (c : Char) : List Char :=
  if c = '"' then ['\\', '"']
  else if c = '\\' then ['\\', '\\']
  else if c = '\x08' then ['\\', 'b']
  else if c = '\x0c' then ['\\', 'f']
  else if c = '\n' then ['\\', 'n']
  else if c = '\r' then ['\\', 'r']
  else if c = '\t' then ['\\', 't']
  else if c.toNat < 0x20 then unicodeEscape c
  else [c]

def quoted (s : String) : List Char :=
  '"' :: s.toList.flatMap escape ++ ['"']

def boolText : Bool → List Char
  | true => ['t', 'r', 'u', 'e']
  | false => ['f', 'a', 'l', 's', 'e']

mutual

def text : Json → List Char
  | .null => ['n', 'u', 'l', 'l']
  | .bool b => boolText b
  | .number n => n.text
  | .string s => quoted s
  | .array [] => ['[', ']']
  | .array (j :: js) => '[' :: (text j ++ moreItems js)
  | .object [] => ['\x7b', '\x7d']
  | .object ((k, j) :: fs) => '\x7b' :: (quoted k ++ ':' :: (text j ++ moreFields fs))

def moreItems : List Json → List Char
  | [] => [']']
  | j :: js => ',' :: (text j ++ moreItems js)

def moreFields : List (String × Json) → List Char
  | [] => ['\x7d']
  | (k, j) :: fs => ',' :: (quoted k ++ ':' :: (text j ++ moreFields fs))

end

def compact (j : Json) : String :=
  String.ofList j.text

end ProgramHost.Json
