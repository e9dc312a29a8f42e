import ProgramHost.Json.Printer
import ProgramHost.Numeral.Layout
import ProgramHost.Text.Quoted
import ProgramHost.Value.Basic
/-!
# How a value is shown

A value has a line for reading and a document. The line shows a text in quotes
and what could not be read in angle brackets; the document names the kind of
value and gives what it carries.
-/

namespace ProgramHost.Value

def display : Value → List Char
  | .unassigned => "unassigned".toList
  | .undefined => "undefined".toList
  | .number bits => Numeral.plainText bits.toNat
  | .boolean b => Json.boolText b
  | .text s => Text.Quoted.encode s.toList
  | .function => "<function>".toList
  | .invalidTag tag =>
      "<invalid type tag ".toList ++ Numeral.Radix.decimal tag.toNat ++ ['>']
  | .outOfBounds offset len =>
      "<out of bounds read of ".toList ++ Numeral.Radix.decimal len ++
        " bytes at ".toList ++ Numeral.Radix.decimal offset ++ ['>']

/-- The document of a number; there is none for what is not finite. -/
def numberJson (bits : UInt64) : Json :=
  match Numeral.ofBits? .binary64 .document64 bits.toNat with
  | some n => .number n
  | none => .null

def tagged (type : String) : Json :=
  .object [("type", .string type)]

def taggedWith (type : String) (content : Json) : Json :=
  .object [("type", .string type), ("value", content)]

def toJson : Value → Json
  | .unassigned => tagged "unassigned"
  | .undefined => tagged "undefined"
  | .number bits => taggedWith "number" (numberJson bits)
  | .boolean b => taggedWith "boolean" (.bool b)
  | .text s => taggedWith "text" (.string s)
  | .function => tagged "function"
  | .invalidTag tag => taggedWith "invalidTag" (.nat tag.toNat)
  | .outOfBounds offset len =>
      taggedWith "outOfBounds" (.object [("offset", .nat offset), ("len", .nat len)])

end ProgramHost.Value
