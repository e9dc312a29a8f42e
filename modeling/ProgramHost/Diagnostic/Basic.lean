import ProgramHost.Fault
/-!
# Diagnostics

A diagnostic says what was found, how grave it is and where. Diagnostics come
from the compiler, from the host that refuses a module, from a fault that a
program reports and from a run that the host ends; each has its constructor.
-/

namespace ProgramHost

/-- The part of the work that a diagnostic is about. -/
inductive Kind where
  | syntactic
  | runtime
  deriving DecidableEq, Repr

inductive Severity where
  | warning
  | error
  deriving DecidableEq, Repr

structure Position where
  line : UInt32
  column : UInt32
  deriving DecidableEq, Repr

/-- A range of a source text, the end not included. -/
structure Location where
  start : Position
  stop : Position
  deriving DecidableEq, Repr

/-- A finding about a program. Of the two texts the first says what was found and the second gives
a hint at the cause; the hint is empty where there is none. -/
structure Diagnostic where
  kind : Kind
  severity : Severity
  location : Location
  explain : String
  elaborate : String
  deriving DecidableEq, Repr

namespace Severity

def errorCode : UInt32 := 4

def ofCode (code : UInt32) : Severity :=
  if errorCode ≤ code then .error else .warning

theorem ofCode_eq_error_iff (code : UInt32) :
    ofCode code = .error ↔ errorCode ≤ code := by
  unfold ofCode
  split <;> simp_all

end Severity

namespace Location

/-- The column after a column; the last one has none after it. So the range of a point is empty
in the last column and has one column everywhere else. -/
def nextColumn (column : UInt32) : UInt32 :=
  if column = 0xFFFFFFFF then column else column + 1

def point (line column : UInt32) : Location :=
  ⟨⟨line, column⟩, ⟨line, nextColumn column⟩⟩

/-- The location of what has no place in the source. No compiler and no fault can report it, since
the range of a point never ends in column zero. -/
def unknown : Location := ⟨⟨0, 0⟩, ⟨0, 0⟩⟩

theorem point_ne_unknown (line column : UInt32) : point line column ≠ unknown := by
  intro h
  simp only [point, unknown, Location.mk.injEq, Position.mk.injEq] at h
  obtain ⟨⟨-, hc⟩, -, hn⟩ := h
  subst hc
  exact absurd hn (by decide)

end Location

namespace Diagnostic

def isError (d : Diagnostic) : Bool := d.severity = .error

def ofCompiler (severityCode : UInt32) (message : String) (line column : UInt32) :
    Diagnostic where
  kind := .syntactic
  severity := .ofCode severityCode
  location := .point line column
  explain := message
  elaborate := ""

/-- The host refuses a module that the compiler gave out as clean. -/
def ofRejection (message : String) : Diagnostic where
  kind := .syntactic
  severity := .error
  location := .unknown
  explain := message
  elaborate := "The generated module failed host validation. This is likely a bug in the compiler."

def ofFault (fault : Fault) (line column : UInt32) : Diagnostic where
  kind := .runtime
  severity := .error
  location := .point line column
  explain := fault.explain
  elaborate := fault.elaborate

def ofFailure (description : String) : Diagnostic where
  kind := .runtime
  severity := .error
  location := .unknown
  explain := description
  elaborate := description

end Diagnostic

end ProgramHost
