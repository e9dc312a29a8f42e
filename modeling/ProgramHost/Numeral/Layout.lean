import ProgramHost.Numeral.Shortest
/-!
# How a finite datum is written

A layout says which exponents are written positionally, whether a point is
always followed by a digit, and which of two equally near decimals is taken.
The digits are the fewest that read back.
-/

namespace ProgramHost.Numeral

/-- The decisions of a number format. Exponents in `positional` (the lower end
included, the upper not) are written without an exponent; without a range all
are. -/
structure Layout where
  tie : Tie
  positional : Option (Int × Int)
  alwaysFraction : Bool

namespace Layout

/-- Numbers for reading: never an exponent, and a point only before digits. -/
def plain : Layout := ⟨.up, none, false⟩

def document64 : Layout := ⟨.even, some (-5, 16), true⟩

def document32 : Layout := ⟨.even, some (-6, 13), true⟩

def isPositional (l : Layout) (e : Int) : Bool :=
  match l.positional with
  | none => true
  | some (low, high) => low ≤ e && e < high

end Layout

namespace Scientific

def split (s : Scientific) : List Digit × List Digit :=
  if s.exponent < 0 then
    ([.zero], List.replicate (-s.exponent - 1).toNat .zero ++ s.digits)
  else
    let n := s.exponent.toNat + 1
    (s.digits.take n ++ List.replicate (n - s.digits.length) .zero, s.digits.drop n)

def positional (s : Scientific) (negative alwaysFraction : Bool) : Numeral :=
  let (whole, fraction) := s.split
  ⟨negative, whole,
    if alwaysFraction && fraction.isEmpty then [.zero] else fraction, none⟩

def exponential (s : Scientific) (negative : Bool) : Numeral :=
  ⟨negative, s.digits.take 1, s.digits.drop 1, some s.exponent⟩

def numeral (s : Scientific) (l : Layout) (negative : Bool) : Numeral :=
  if l.isPositional s.exponent then s.positional negative l.alwaysFraction
  else s.exponential negative

end Scientific

/-- The literal of a finite datum. -/
def ofDyadic (l : Layout) (negative : Bool) (x : Dyadic) : Numeral :=
  (x.shortest l.tie).numeral l negative

/-- The literal of a bit pattern, unless it is no finite number. -/
def ofBits? (f : Format) (l : Layout) (bits : Nat) : Option Numeral :=
  match f.datum bits with
  | .finite negative x => some (ofDyadic l negative x)
  | _ => none

def plainText (bits : Nat) : List Char :=
  match Format.binary64.datum bits with
  | .nan => ['N', 'a', 'N']
  | .infinite negative => signText negative ++ ['i', 'n', 'f']
  | .finite negative x => (ofDyadic .plain negative x).text

end ProgramHost.Numeral
