/-!
# Binary floating-point data

A datum of a binary interchange format is read from its bit pattern: a sign, a
biased exponent and a fraction. A finite datum is `±m · 2^q` with a natural
number `m`. The numbers that round to it reach half a gap to each side, and the
gap below a power of two is half as wide as the gap above it, unless the power
is the least with a full exponent.
-/

namespace ProgramHost.Numeral

/-- A binary interchange format, by the widths of its fields. The sign takes one bit more, and a
full exponent field stands for what is not finite. -/
structure Format where
  exponentBits : Nat
  fractionBits : Nat

def Format.binary64 : Format := ⟨11, 52⟩

def Format.binary32 : Format := ⟨8, 23⟩

/-- The number `m · 2^q`; it is `narrow` if the gap below is half of the gap
above. -/
structure Dyadic where
  m : Nat
  q : Int
  narrow : Bool
  deriving DecidableEq, Repr

/-- What a bit pattern stands for. -/
inductive Datum where
  | nan
  | infinite (negative : Bool)
  | finite (negative : Bool) (size : Dyadic)
  deriving DecidableEq, Repr

namespace Format

def fractions (f : Format) : Nat := Nat.pow 2 f.fractionBits

def exponents (f : Format) : Nat := Nat.pow 2 f.exponentBits

/-- The offset of the exponent field, with the fraction counted as an integer. -/
def bias (f : Format) : Int :=
  f.exponents / 2 - 1 + f.fractionBits

def datum (f : Format) (bits : Nat) : Datum :=
  let fraction := bits % f.fractions
  let exponent := bits / f.fractions % f.exponents
  let negative := bits / f.fractions / f.exponents % 2 = 1
  if exponent = f.exponents - 1 then
    if fraction = 0 then .infinite negative else .nan
  else if exponent = 0 then
    .finite negative ⟨fraction, 1 - f.bias, false⟩
  else
    .finite negative
      ⟨f.fractions + fraction, exponent - f.bias, fraction = 0 && 1 < exponent⟩

end Format

example : Format.binary64.datum 0x3FF8000000000000 =
    .finite false ⟨0x18000000000000, -52, false⟩ := by decide

example : Format.binary64.datum 0x8000000000000001 =
    .finite true ⟨1, -1074, false⟩ := by decide

example : Format.binary32.datum 0x7F800000 = .infinite false := by decide

end ProgramHost.Numeral
