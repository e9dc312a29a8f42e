import ProgramHost.Numeral.Radix
/-!
# Decimal literals

A literal has a sign, the digits before the point, the digits after it, and a
power of ten that scales it. No point is written without digits after it, and
no exponent where there is none. The exponent carries its sign always.
-/

namespace ProgramHost

abbrev Digit : Type := Fin 10

def Digit.zero : Digit := ⟨0, Numeral.Radix.ten_pos⟩

/-- A decimal literal, digit by digit: two literals of one number are different literals if they
are written in different ways. -/
structure Numeral where
  negative : Bool
  whole : List Digit
  fraction : List Digit
  exponent : Option Int
  deriving DecidableEq, Repr

namespace Numeral

def ofInt (z : Int) : Numeral where
  negative := z < 0
  whole := Radix.tens z.natAbs
  fraction := []
  exponent := none

def ofNat (n : Nat) : Numeral where
  negative := false
  whole := Radix.tens n
  fraction := []
  exponent := none

def signText : Bool → List Char
  | true => ['-']
  | false => []

def fractionText : List Digit → List Char
  | [] => []
  | d :: ds => '.' :: Radix.text (d :: ds)

def exponentText : Option Int → List Char
  | none => []
  | some e => 'e' :: (if e < 0 then '-' else '+') :: Radix.decimal e.natAbs

def text (n : Numeral) : List Char :=
  signText n.negative ++ Radix.text n.whole ++ fractionText n.fraction ++
    exponentText n.exponent

end Numeral

end ProgramHost
