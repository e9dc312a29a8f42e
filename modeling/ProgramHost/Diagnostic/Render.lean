import ProgramHost.Diagnostic.Basic
import ProgramHost.Json.Printer
/-!
# How a diagnostic is shown

A diagnostic has a line, a document and a printed form. The printed form leaves
out an empty hint and an unknown location; its header may be coloured.
-/

namespace ProgramHost

def Kind.title : Kind → String
  | .syntactic => "Syntax"
  | .runtime => "Runtime"

def Kind.key : Kind → String
  | .syntactic => "syntax"
  | .runtime => "runtime"

def Severity.title : Severity → String
  | .warning => "Warning"
  | .error => "Error"

def Severity.key : Severity → String
  | .warning => "warning"
  | .error => "error"

def Severity.colour : Severity → String
  | .warning => "33"
  | .error => "31"

def Position.toJson (p : Position) : Json :=
  .object [("line", .nat p.line.toNat), ("column", .nat p.column.toNat)]

def Location.toJson (l : Location) : Json :=
  .object [("start", l.start.toJson), ("end", l.stop.toJson)]

def Location.display (l : Location) : String :=
  Numeral.Radix.decimalString l.start.line.toNat ++ ":" ++
    Numeral.Radix.decimalString l.start.column.toNat

namespace Diagnostic

def toJson (d : Diagnostic) : Json :=
  .object [
    ("kind", .string d.kind.key),
    ("severity", .string d.severity.key),
    ("location", d.location.toJson),
    ("explain", .string d.explain),
    ("elaborate", .string d.elaborate)]

def display (d : Diagnostic) : String :=
  "[" ++ d.kind.title ++ " " ++ d.severity.title ++ "] " ++ d.location.display ++ ": " ++
    d.explain

def displayAll (ds : List Diagnostic) : String :=
  "Vec(" ++ ", ".intercalate (ds.map display) ++ ")"

def header (colour : Bool) (d : Diagnostic) : String :=
  let title := "• " ++ d.severity.title ++ ":"
  if colour then "\x1b[1;" ++ d.severity.colour ++ "m" ++ title ++ "\x1b[0m" else title

/-- The printed form of a diagnostic: an empty line, the header with what was found, an empty line
again, and then the hint and the place, each only if there is one. -/
def printed (colour : Bool) (d : Diagnostic) : String :=
  "\n" ++ d.header colour ++ " " ++ d.explain ++ "\n\n" ++
    (if d.elaborate = "" then "" else "  " ++ d.elaborate ++ "\n") ++
    (if d.location = .unknown then "" else "  at " ++ d.location.display ++ "\n\n")

end Diagnostic

end ProgramHost
