import ProgramHost.Json.Printer
import ProgramHost.Numeral.Layout
import ProgramHost.Text.Place
/-!
# Syntax trees

A parser gives a tree, and the compiler is given its document. A tree whose maps
have keys that are no names has no document, nor has one with a broken part; of
several such places the first in order counts. What is said about a broken part
may end in a place, which is then written anew.
-/

namespace ProgramHost

/-- What a parser makes of a source text. Reals are kept as bit patterns, the keys of a map are
trees themselves, and a node can refuse to be serialized. -/
inductive Tree where
  | null
  | bool (b : Bool)
  | integer (z : Int)
  | real64 (bits : UInt64)
  | real32 (bits : UInt32)
  | text (s : String)
  | list (items : List Tree)
  | map (entries : List (Tree × Tree))
  | broken (message : String)

inductive TreeError where
  | broken (message : String)
  | keyNotText
  | keyNotFinite
  deriving DecidableEq, Repr

def TreeError.message : TreeError → String
  | .broken message => String.ofList (Text.Place.restate message.toList)
  | .keyNotText => "key must be a string"
  | .keyNotFinite => "float key must be finite (got NaN or +/-inf)"

namespace Tree

/-- The document of a real; there is none for what is not finite. -/
def realJson : Option Numeral → Json
  | some n => .number n
  | none => .null

def realKey : Option Numeral → Except TreeError String
  | some n => .ok (String.ofList n.text)
  | none => .error .keyNotFinite

def numeral64 (bits : UInt64) : Option Numeral :=
  Numeral.ofBits? .binary64 .document64 bits.toNat

def numeral32 (bits : UInt32) : Option Numeral :=
  Numeral.ofBits? .binary32 .document32 bits.toNat

/-- The name that a tree is as a key: a text is its own, a truth value or a
number has its text. -/
def key? : Tree → Except TreeError String
  | .bool b => .ok (String.ofList (Json.boolText b))
  | .integer z => .ok (String.ofList (Numeral.ofInt z).text)
  | .real64 bits => realKey (numeral64 bits)
  | .real32 bits => realKey (numeral32 bits)
  | .text s => .ok s
  | .broken message => .error (.broken message)
  | .null => .error .keyNotText
  | .list _ => .error .keyNotText
  | .map _ => .error .keyNotText

mutual

def toJson? : Tree → Except TreeError Json
  | .null => .ok .null
  | .bool b => .ok (.bool b)
  | .integer z => .ok (.number (.ofInt z))
  | .real64 bits => .ok (realJson (numeral64 bits))
  | .real32 bits => .ok (realJson (numeral32 bits))
  | .text s => .ok (.string s)
  | .list items => return .array (← itemsJson? items)
  | .map entries => return .object (← entriesJson? entries)
  | .broken message => .error (.broken message)

def itemsJson? : List Tree → Except TreeError (List Json)
  | [] => .ok []
  | t :: ts => do
      let j ← toJson? t
      return j :: (← itemsJson? ts)

def entriesJson? : List (Tree × Tree) → Except TreeError (List (String × Json))
  | [] => .ok []
  | (k, t) :: es => do
      let name ← key? k
      let j ← toJson? t
      return (name, j) :: (← entriesJson? es)

end

/-- The text of a tree that the compiler is given. -/
def serialize (t : Tree) : Except TreeError String :=
  return (← toJson? t).compact

end Tree

end ProgramHost
