/-!
# Arithmetic of programs

Words have 32 bits and wrap around. A division traps on a zero divisor, and on
the one quotient that has no word. Reals are kept as the bit patterns of 64-bit
numbers; an operation on a NaN gives that NaN, made quiet, the left one first.
-/

namespace ProgramHost.Program

/-- What ends the execution of a program from inside, apart from a fault. A trap carries no name
and no place, so two programs that differ in their names alone trap alike. -/
inductive Trap where
  | unreachable
  | divisionByZero
  | overflow
  | outOfBounds
  | stackExhausted
  deriving DecidableEq, Repr

inductive WordOp where
  | add | sub | mul | divS | divU | remS | remU
  | and | or | xor | shl | shrS | shrU
  | eq | ne | ltS | ltU | gtS | gtU
  deriving DecidableEq, Repr

inductive RealOp where
  | add | sub | mul | div
  deriving DecidableEq, Repr

def ofBool (b : Bool) : UInt32 := if b then 1 else 0

def signed (x : UInt32) : Int := x.toInt32.toInt

def ofSigned (z : Int) : UInt32 := (Int32.ofInt z).toUInt32

/-- The quotient of two signed words, rounded toward zero. -/
def divSigned (x y : UInt32) : Except Trap UInt32 :=
  if y = 0 then .error .divisionByZero
  else if x = 0x80000000 ∧ y = 0xFFFFFFFF then .error .overflow
  else .ok (ofSigned ((signed x).tdiv (signed y)))

/-- The remainder of two signed words, with the sign of the dividend. -/
def remSigned (x y : UInt32) : Except Trap UInt32 :=
  if y = 0 then .error .divisionByZero
  else .ok (ofSigned ((signed x).tmod (signed y)))

def divUnsigned (x y : UInt32) : Except Trap UInt32 :=
  if y = 0 then .error .divisionByZero else .ok (x / y)

def remUnsigned (x y : UInt32) : Except Trap UInt32 :=
  if y = 0 then .error .divisionByZero else .ok (x % y)

/-- The word shifted to the right by copies of its sign. -/
def shiftSigned (x y : UInt32) : UInt32 :=
  (x.toInt32 >>> (y % 32).toInt32).toUInt32

def WordOp.apply : WordOp → UInt32 → UInt32 → Except Trap UInt32
  | .add, x, y => .ok (x + y)
  | .sub, x, y => .ok (x - y)
  | .mul, x, y => .ok (x * y)
  | .divS, x, y => divSigned x y
  | .divU, x, y => divUnsigned x y
  | .remS, x, y => remSigned x y
  | .remU, x, y => remUnsigned x y
  | .and, x, y => .ok (x &&& y)
  | .or, x, y => .ok (x ||| y)
  | .xor, x, y => .ok (x ^^^ y)
  | .shl, x, y => .ok (x <<< (y % 32))
  | .shrS, x, y => .ok (shiftSigned x y)
  | .shrU, x, y => .ok (x >>> (y % 32))
  | .eq, x, y => .ok (ofBool (x == y))
  | .ne, x, y => .ok (ofBool (x != y))
  | .ltS, x, y => .ok (ofBool (signed x < signed y))
  | .ltU, x, y => .ok (ofBool (x < y))
  | .gtS, x, y => .ok (ofBool (signed y < signed x))
  | .gtU, x, y => .ok (ofBool (y < x))

def isNaN (x : UInt64) : Bool := 0x7FF0000000000000 < x &&& 0x7FFFFFFFFFFFFFFF

def quiet (x : UInt64) : UInt64 := x ||| 0x0008000000000000

/-- The NaN of an operation that has no result. -/
def invalid : UInt64 := 0xFFF8000000000000

/-- The result of an operation on reals, rounded to nearest. -/
def RealOp.round : RealOp → Float → Float → Float
  | .add, x, y => x + y
  | .sub, x, y => x - y
  | .mul, x, y => x * y
  | .div, x, y => x / y

def RealOp.apply (op : RealOp) (x y : UInt64) : UInt64 :=
  if isNaN x then quiet x
  else if isNaN y then quiet y
  else
    let z := (op.round (Float.ofBits x) (Float.ofBits y)).toBits
    if isNaN z then invalid else z

def realOfUnsigned (x : UInt32) : UInt64 := x.toFloat.toBits

def realOfSigned (x : UInt32) : UInt64 :=
  if signed x < 0 then (-(0 - x).toFloat).toBits else x.toFloat.toBits

end ProgramHost.Program
