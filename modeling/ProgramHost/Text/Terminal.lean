import ProgramHost.Text.Styled
/-!
# Text without control sequences

A text for a terminal has control sequences between its visible characters.
`visible` leaves the sequences out, and with them every control character that
is no blank. The reader is an automaton over the parts of a control sequence.

A sequence is begun by the escape character and ends with its final character. A
device string, a privacy message and an operating system command go on to their
terminator. CAN and SUB break any of them off. A blank inside a sequence is
visible, and so is what follows it up to the next control character. There the
sequence is taken up again, unless a character beyond ASCII was visible since
then, which ends it.
-/

namespace ProgramHost.Text.Terminal

/-- What a reader is inside of. -/
inductive Inside where
  | text
  | escape
  | intermediate
  | sequence
  | deviceStart
  | deviceParameter
  | deviceIntermediate
  | string
  | command
  deriving DecidableEq, Repr

/-- Where a reader stands, and whether the last character was visible. A character that is visible
puts the reader outside of every sequence, even if one was begun. -/
structure Reader where
  inside : Inside
  showing : Bool
  deriving DecidableEq, Repr

def isBlankControl (c : Char) : Bool :=
  c = '\t' || c = '\n' || c = '\x0c' || c = '\r'

def isVisible (c : Char) : Bool :=
  (0x20 ≤ c.toNat && c.toNat ≠ 0x7F) || isBlankControl c

/-- The encoding of the character has the byte that ends a control string. -/
def endsString (c : Char) : Bool :=
  (String.utf8EncodeChar c).contains 0x9C

def between (low : Nat) (c : Char) (high : Nat) : Bool :=
  low ≤ c.toNat && c.toNat ≤ high

namespace Inside

def showsBlanks : Inside → Bool
  | .text => true
  | .escape => true
  | .intermediate => true
  | .sequence => true
  | _ => false

def afterEscape (c : Char) : Inside :=
  if c = '[' then .sequence
  else if c = ']' then .command
  else if c = 'P' then .deviceStart
  else if c = 'X' ∨ c = '^' ∨ c = '_' then .string
  else if between 0x20 c 0x2F then .intermediate
  else if between 0x30 c 0x7E then .text
  else .escape

/-- The part of a device string that follows one of its first characters; from
the part `here` it goes on by `parameter` where a parameter stands. -/
def afterDevice (here : Inside) (parameter : Char → Inside) (c : Char) : Inside :=
  if between 0x20 c 0x2F then .deviceIntermediate
  else if between 0x30 c 0x3F then parameter c
  else if between 0x40 c 0x7E then .string
  else here

def next (c : Char) : Inside → Inside
  | .text => .text
  | .escape => afterEscape c
  | .intermediate => if between 0x30 c 0x7E then .text else .intermediate
  | .sequence => if between 0x40 c 0x7E then .text else .sequence
  | .deviceStart => afterDevice .deviceStart (fun _ => .deviceParameter) c
  | .deviceParameter =>
      afterDevice .deviceParameter
        (fun c => if between 0x3C c 0x3F then .string else .deviceParameter) c
  | .deviceIntermediate => afterDevice .deviceIntermediate (fun _ => .string) c
  | .string => if endsString c then .text else .string
  | .command => if c = '\x07' then .text else .command

end Inside

def Inside.afterVisible (c : Char) (i : Inside) : Inside :=
  if 0x80 ≤ c.toNat then .text else i

/-- Reads one character: whether it is visible, and where the reader stands then. -/
def step (r : Reader) (c : Char) : Bool × Reader :=
  if c = escapeChar then (false, ⟨.escape, false⟩)
  else if c = '\x18' ∨ c = '\x1a' then (false, ⟨.text, false⟩)
  else if r.showing ∨ r.inside = .text then
    (isVisible c, ⟨r.inside.afterVisible c, isVisible c⟩)
  else if isBlankControl c ∧ r.inside.showsBlanks then (true, ⟨r.inside, true⟩)
  else (false, ⟨r.inside.next c, false⟩)

/-- The visible characters of a text, read from where the reader stands. -/
def visibleFrom (r : Reader) : List Char → List Char
  | [] => []
  | c :: cs =>
      match step r c with
      | (true, r) => c :: visibleFrom r cs
      | (false, r) => visibleFrom r cs

def visible (cs : List Char) : List Char :=
  visibleFrom ⟨.text, false⟩ cs

@[simp] theorem visible_nil : visible [] = [] := rfl

example : visible "\x1b[1m\x1b[31merror:\x1b[0m bad".toList = "error: bad".toList := by
  decide +kernel

example : visible "a\x1b]0;t\x07z".toList = "az".toList := by decide +kernel

example : visible "a\x1b[3\t\x0131mz".toList = "a\tz".toList := by decide +kernel

example : visible "a\x1b[3\té\x0131mz".toList = "a\té31mz".toList := by decide +kernel

end ProgramHost.Text.Terminal
