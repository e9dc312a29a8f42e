import ProgramHost.Numeral.Basic
/-!
# Documents

A document is a JSON value. The fields of an object keep the order they were
given in, and a name may occur twice; numbers are kept as the literals they are
written with.
-/

namespace ProgramHost

/-- A JSON value. The fields of an object have an order and can share a name; a number is kept as
the literal that is written for it. -/
inductive Json where
  | null
  | bool (b : Bool)
  | number (n : Numeral)
  | string (s : String)
  | array (items : List Json)
  | object (fields : List (String × Json))

namespace Json

def nat (n : Nat) : Json := .number (.ofNat n)

/-- Puts a field in front of the first one whose name is not smaller. -/
def insertField (f : String × Json) : List (String × Json) → List (String × Json)
  | [] => [f]
  | g :: gs => if g.1 < f.1 then g :: insertField f gs else f :: g :: gs

def sortFields (fs : List (String × Json)) : List (String × Json) :=
  fs.foldr insertField []

mutual

/-- The document with the fields of every object in the order of their names. -/
def sorted : Json → Json
  | .array items => .array (sortedItems items)
  | .object fields => .object (sortFields (sortedFields fields))
  | j => j

def sortedItems : List Json → List Json
  | [] => []
  | j :: js => sorted j :: sortedItems js

def sortedFields : List (String × Json) → List (String × Json)
  | [] => []
  | (k, j) :: fs => (k, sorted j) :: sortedFields fs

end

@[simp] theorem sortFields_nil : sortFields [] = [] := rfl

theorem sortFields_cons (f : String × Json) (fs : List (String × Json)) :
    sortFields (f :: fs) = insertField f (sortFields fs) := rfl

end Json

end ProgramHost
