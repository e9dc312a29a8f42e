/-!
# Lossy reading of UTF-8

`decode bytes` reads a byte sequence from left to right. A well-formed sequence
gives its character; a maximal ill-formed subpart, that is the longest proper
beginning of a well-formed sequence or else a single byte, gives one
replacement character.

The reading is an automaton with one state per position inside a sequence, so
it never looks ahead: a byte that cannot continue the sequence at hand closes
it with a replacement character and is then read as the first byte of the next
one. The states carry the bounds of the next byte, which is where over-long
forms, surrogates and values above the last code point are refused.
-/

namespace ProgramHost.Text.Utf8

/-- The position of the reader: between two sequences, or inside one of which
`missing + 1` bytes are still to come, the next between `low` and `high`. -/
inductive State where
  | between
  | inside (missing low high value : Nat)
  deriving DecidableEq, Repr

def replacement : Char := '\uFFFD'

def first (b : Nat) : List Char × State :=
  if b < 0x80 then ([Char.ofNat b], .between)
  else if b < 0xC2 then ([replacement], .between)
  else if b < 0xE0 then ([], .inside 0 0x80 0xBF (b - 0xC0))
  else if b = 0xE0 then ([], .inside 1 0xA0 0xBF 0)
  else if b = 0xED then ([], .inside 1 0x80 0x9F 0xD)
  else if b < 0xF0 then ([], .inside 1 0x80 0xBF (b - 0xE0))
  else if b = 0xF0 then ([], .inside 2 0x90 0xBF 0)
  else if b < 0xF4 then ([], .inside 2 0x80 0xBF (b - 0xF0))
  else if b = 0xF4 then ([], .inside 2 0x80 0x8F 4)
  else ([replacement], .between)

/-- Reads one byte: the characters that it completes and the next position. -/
def step : State → Nat → List Char × State
  | .between, b => first b
  | .inside missing low high value, b =>
      if low ≤ b ∧ b ≤ high then
        match missing with
        | 0 => ([Char.ofNat (value * 64 + (b - 0x80))], .between)
        | missing + 1 => ([], .inside missing 0x80 0xBF (value * 64 + (b - 0x80)))
      else (replacement :: (first b).1, (first b).2)

/-- What the end of the bytes gives: a sequence that was begun is ill formed. -/
def State.close : State → List Char
  | .between => []
  | .inside .. => [replacement]

def readFrom (s : State) : List UInt8 → List Char
  | [] => s.close
  | b :: bs => (step s b.toNat).1 ++ readFrom (step s b.toNat).2 bs

def decode (bytes : List UInt8) : List Char :=
  readFrom .between bytes

def encode (text : List Char) : List UInt8 :=
  text.flatMap String.utf8EncodeChar

@[simp] theorem readFrom_nil (s : State) : readFrom s [] = s.close := rfl

theorem readFrom_cons (s : State) (b : UInt8) (bs : List UInt8) :
    readFrom s (b :: bs) =
      (step s b.toNat).1 ++ readFrom (step s b.toNat).2 bs := rfl

@[simp] theorem decode_nil : decode [] = [] := rfl

@[simp] theorem encode_nil : encode [] = [] := rfl

theorem encode_cons (c : Char) (cs : List Char) :
    encode (c :: cs) = String.utf8EncodeChar c ++ encode cs := by
  simp [encode]

theorem encode_append (cs ds : List Char) :
    encode (cs ++ ds) = encode cs ++ encode ds := by
  simp [encode]

end ProgramHost.Text.Utf8
