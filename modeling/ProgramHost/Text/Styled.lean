/-!
# Styled text

A styled text is a sequence of pieces that stand out in different ways. On a
terminal each piece stands between the control sequences of its style and the
one that takes every style back; a plain piece has none.
-/

namespace ProgramHost.Text

def escapeChar : Char := '\x1b'

/-- How a piece of text stands out. -/
inductive Style where
  | plain
  | literal
  | header
  | invalid
  | error
  deriving DecidableEq, Repr

structure Piece where
  style : Style
  text : String
  deriving DecidableEq, Repr

abbrev Styled : Type := List Piece

namespace Style

/-- A control sequence that sets one property of what follows. -/
def control (code : String) : String :=
  String.ofList [escapeChar, '['] ++ code ++ "m"

/-- The properties of a style: `1` is bold, `4` underlined, `31` red, `33` yellow. -/
def codes : Style → List String
  | .plain => []
  | .literal => ["1"]
  | .header => ["1", "4"]
  | .invalid => ["33"]
  | .error => ["1", "31"]

def opening (s : Style) : String :=
  String.join (s.codes.map control)

def closing : Style → String
  | .plain => ""
  | _ => control "0"

end Style

def Piece.marked (p : Piece) : String :=
  p.style.opening ++ p.text ++ p.style.closing

namespace Styled

def marked (t : Styled) : String :=
  String.join (t.map Piece.marked)

end Styled

end ProgramHost.Text
