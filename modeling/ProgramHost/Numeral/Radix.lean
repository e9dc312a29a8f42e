/-!
# Natural numbers in a base

`digits` lists the digits of a number in a base, the most significant first, and
`ofDigits` reads such a list back. Zero has the one digit `0`. A digit is a
number below the base, so a list of digits is a numeral by its type.
-/

namespace ProgramHost.Numeral.Radix

def lastDigit {b : Nat} (pos : 0 < b) (n : Nat) : Fin b :=
  ⟨n % b, Nat.mod_lt n pos⟩

/-- Puts the digits of `n` in front of `acc`, at most `fuel` of them. -/
def digitsOnto {b : Nat} (pos : 0 < b) : Nat → Nat → List (Fin b) → List (Fin b)
  | 0, _, acc => acc
  | fuel + 1, n, acc =>
      if n < b then lastDigit pos n :: acc
      else digitsOnto pos fuel (n / b) (lastDigit pos n :: acc)

/-- The digits of `n` in base `b`. A number has at most as many digits in a
base above one as it has in base two. -/
def digits {b : Nat} (pos : 0 < b) (n : Nat) : List (Fin b) :=
  digitsOnto pos (n.log2 + 1) n []

def ofDigits {b : Nat} (ds : List (Fin b)) : Nat :=
  ds.foldl (fun n d => n * b + d.val) 0

def digitChar {b : Nat} (d : Fin b) : Char :=
  Nat.digitChar d.val

def text {b : Nat} (ds : List (Fin b)) : List Char :=
  ds.map digitChar

theorem ten_pos : 0 < 10 := Nat.succ_pos 9

theorem sixteen_pos : 0 < 16 := Nat.succ_pos 15

def tens (n : Nat) : List (Fin 10) :=
  digits ten_pos n

def decimal (n : Nat) : List Char :=
  text (tens n)

def decimalString (n : Nat) : String :=
  String.ofList (decimal n)

def hexadecimal (n : Nat) : List Char :=
  text (digits sixteen_pos n)

def digit? (c : Char) : Option (Fin 10) :=
  if h : '0'.toNat ≤ c.toNat ∧ c.toNat - '0'.toNat < 10 then some ⟨c.toNat - '0'.toNat, h.2⟩
  else none

/-- The number that a decimal text denotes; zeros in front count for nothing. -/
def readDecimal? : List Char → Option Nat
  | [] => none
  | c :: cs => ((c :: cs).mapM digit?).map ofDigits

@[simp] theorem ofDigits_nil {b : Nat} : ofDigits ([] : List (Fin b)) = 0 := rfl

theorem ofDigits_append_singleton {b : Nat} (ds : List (Fin b)) (d : Fin b) :
    ofDigits (ds ++ [d]) = ofDigits ds * b + d.val := by
  simp [ofDigits]

@[simp] theorem text_nil {b : Nat} : text ([] : List (Fin b)) = [] := rfl

theorem text_append {b : Nat} (ds es : List (Fin b)) :
    text (ds ++ es) = text ds ++ text es := by
  simp [text]

@[simp] theorem length_text {b : Nat} (ds : List (Fin b)) :
    (text ds).length = ds.length := by
  simp [text]

example : decimal 0 = ['0'] := by decide

example : decimal 4096 = ['4', '0', '9', '6'] := by decide

example : readDecimal? ['0', '4', '0'] = some 40 := by decide

example : readDecimal? ['4', '-'] = none := by decide

example : hexadecimal 0x2FA = ['2', 'f', 'a'] := by decide

end ProgramHost.Numeral.Radix
