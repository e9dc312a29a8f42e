import ProgramHost.Numeral.Basic
import ProgramHost.Numeral.Binary
/-!
# The fewest digits that read back

`shortest tie x` is the decimal with the fewest digits among those that round
to `x`, and of these the nearest to `x`; `tie` says which of two equally near
decimals is taken.

The search goes through the grids of multiples of `10^e`, from the power of ten
just below `x` down to finer ones. If a grid has a point that rounds to `x`,
then so does one of the two grid points around `x`, so only these are tried.
All comparisons are of natural numbers: the value, its two bounds and the grid
points are taken over one denominator.
-/

namespace ProgramHost.Numeral

/-- Which of two equally near neighbours is taken: the even one, or always the upper one. Writers
of decimals differ in this, and in nothing else about which digits they choose. -/
inductive Tie where
  | even
  | up
  deriving DecidableEq, Repr

/-- A decimal `d₁.d₂d₃… · 10^exponent`. -/
structure Scientific where
  digits : List Digit
  exponent : Int
  deriving DecidableEq, Repr

namespace Dyadic

/-- The common denominator of the value and its bounds, which lie on the
multiples of `2^(q - 2)`. -/
def den (x : Dyadic) : Nat := Nat.pow 2 (2 - x.q).toNat

/-- The numerator of `n · 2^(q - 2)` over the common denominator. -/
def scaled (x : Dyadic) (n : Nat) : Nat := n * Nat.pow 2 (x.q - 2).toNat

def value (x : Dyadic) : Nat := x.scaled (4 * x.m)

def low (x : Dyadic) : Nat := x.scaled (4 * x.m - if x.narrow then 1 else 2)

def high (x : Dyadic) : Nat := x.scaled (4 * x.m + 2)

def closed (x : Dyadic) : Bool := x.m % 2 = 0

/-- The factor that makes a power of ten a whole number. -/
def lift (e : Int) : Nat := Nat.pow 10 (-e).toNat

/-- The step of the grid of the multiples of `10^e`, over the common
denominator and after the factor `lift e`. -/
def spacing (x : Dyadic) (e : Int) : Nat := Nat.pow 10 e.toNat * x.den

def admits (x : Dyadic) (e : Int) (k : Nat) : Bool :=
  let p := k * x.spacing e
  let l := x.low * lift e
  let h := x.high * lift e
  (l < p && p < h) || (x.closed && (p == l || p == h))

def floorOn (x : Dyadic) (e : Int) : Nat :=
  x.value * lift e / x.spacing e

/-- The nearer of the grid points `k` and `k + 1` around the value. -/
def nearer (tie : Tie) (x : Dyadic) (e : Int) (k : Nat) : Nat :=
  let twice := 2 * (x.value * lift e)
  let middle := (2 * k + 1) * x.spacing e
  if twice < middle then k
  else if middle < twice then k + 1
  else match tie with
    | .up => k + 1
    | .even => if k % 2 = 0 then k else k + 1

/-- The grid point next to the value that rounds to it, the nearer if both do. -/
def neighbour? (tie : Tie) (x : Dyadic) (e : Int) : Option Nat :=
  let k := x.floorOn e
  match x.admits e k, x.admits e (k + 1) with
  | true, true => some (x.nearer tie e k)
  | true, false => some k
  | false, true => some (k + 1)
  | false, false => none

/-- The greatest exponent of a power of ten that is not above the value. The search starts at its
grid, which has one to nine steps between zero and the value. -/
def magnitude (x : Dyadic) : Int :=
  if x.den ≤ x.value then (Radix.tens (x.value / x.den)).length - 1
  else -(Radix.tens ((x.den - 1) / x.value)).length

def search (tie : Tie) (x : Dyadic) : Nat → Int → Nat × Int
  | 0, e => (x.floorOn e, e)
  | fuel + 1, e =>
      match x.neighbour? tie e with
      | some k => (k, e)
      | none => search tie x fuel (e - 1)

def trimZeros (ds : List Digit) : List Digit :=
  (ds.reverse.dropWhile fun d => d.val = 0).reverse

/-- The shortest decimal. A grid whose step is not above `2^(q - 2)` has a point
between the lower bound and the value. If `4 m` has `n` digits, the value is
below `10^n` times `2^(q - 2)`, so the search ends at most `n` grids below the
first one. -/
def shortest (tie : Tie) (x : Dyadic) : Scientific :=
  if x.m = 0 then ⟨[.zero], 0⟩
  else
    let (k, e) := x.search tie ((Radix.tens (4 * x.m)).length + 1) x.magnitude
    let ds := Radix.tens k
    ⟨trimZeros ds, e + ds.length - 1⟩

end Dyadic

example : Dyadic.shortest .even ⟨1, -1074, false⟩ = ⟨[5], -324⟩ := by decide +kernel

example : Dyadic.shortest .even ⟨21, -1074, false⟩ = ⟨[1, 0, 4], -322⟩ := by decide +kernel

example : Dyadic.shortest .even ⟨0x10000000000000, -77, true⟩ =
    ⟨[2, 9, 8, 0, 2, 3, 2, 2, 3, 8, 7, 6, 9, 5, 3, 1, 2], -8⟩ := by decide +kernel

example : Dyadic.shortest .up ⟨0x10000000000000, -77, true⟩ =
    ⟨[2, 9, 8, 0, 2, 3, 2, 2, 3, 8, 7, 6, 9, 5, 3, 1, 3], -8⟩ := by decide +kernel

end ProgramHost.Numeral
