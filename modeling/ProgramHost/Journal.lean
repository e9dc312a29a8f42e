import ProgramHost.Diagnostic.Basic
import ProgramHost.Numeral.Radix
import ProgramHost.Program.Execute
import ProgramHost.Value.Render
import ProgramHost.Diagnostic.Render
/-!
# The journal

Everything that happens while requests are served is an event, and the events
are kept in their order. What a sink holds and which compile contexts are live
are views of the journal: a diagnostic that reached a sink stays there, and a
context lives from its creation to its destruction.
-/

namespace ProgramHost

/-- A record of the log. Each belongs to a part of the work and has a level; the message that is
written for it is made of what it carries. -/
inductive Note where
  | serialized (bytes : Nat)
  | creating
  | destroying
  | produced (bytes : Option Nat)
  | validated
  | rejected (message : String)
  | decoded (v : Value)
  | faulted (c : Program.FaultCall)
  | failed (description : String)
  deriving DecidableEq, Repr

namespace Note

def target : Note → String
  | .serialized _ => "compile"
  | .creating => "compile"
  | .destroying => "compile"
  | .produced _ => "compile"
  | .validated => "host"
  | .rejected _ => "host"
  | .decoded _ => "run"
  | .faulted _ => "run"
  | .failed _ => "run"

def level : Note → String
  | .serialized _ => "trace"
  | .creating => "trace"
  | .destroying => "trace"
  | .decoded _ => "trace"
  | .produced _ => "debug"
  | .validated => "debug"
  | .rejected _ => "debug"
  | .faulted _ => "debug"
  | .failed _ => "debug"

def byteCount : Option Nat → String
  | some n => Numeral.Radix.decimalString n
  | none => "<n>"

def faultMessage (c : Program.FaultCall) : String :=
  "Fault 0x" ++ String.ofList (Numeral.Radix.hexadecimal c.code.toNat) ++
    " (detail " ++ Numeral.Radix.decimalString c.detail.toNat ++
    ", file " ++ Numeral.Radix.decimalString c.file.toNat ++
    ") at " ++ Numeral.Radix.decimalString c.line.toNat ++
    ":" ++ Numeral.Radix.decimalString c.column.toNat

def message : Note → String
  | .serialized n => "Serialized tree is " ++ Numeral.Radix.decimalString n ++ " bytes"
  | .creating => "Creating compile context"
  | .destroying => "Destroying compile context"
  | .produced n => "Compiler produced " ++ byteCount n ++ " bytes"
  | .validated => "Module validated"
  | .rejected message => "Module rejected: " ++ message
  | .decoded v => "Decoded " ++ String.ofList v.display
  | .faulted c => faultMessage c
  | .failed description => "Execution failed: " ++ description

end Note

/-- Something that happens while requests are served. A report names the sink that it reaches, and
a context is named by the number with which it was created. -/
inductive Event where
  | note (n : Note)
  | parse (source : String)
  | create (id : Nat)
  | compile (id : Nat) (tree options : String)
  | destroy (id : Nat)
  | report (sink : String) (d : Diagnostic)
  deriving DecidableEq, Repr

/-- The events in their order. It only ever grows at its end, so what a sink holds is never taken
back, and every state between two requests is a view of it. -/
abbrev Journal : Type := List Event

namespace Event

def reported? (sink : String) : Event → Option Diagnostic
  | .report s d => if s = sink then some d else none
  | _ => none

def created? : Event → Option Nat
  | .create id => some id
  | _ => none

def destroyed? : Event → Option Nat
  | .destroy id => some id
  | _ => none

def note? : Event → Option Note
  | .note n => some n
  | _ => none

end Event

namespace Journal

def sink (j : Journal) (name : String) : List Diagnostic :=
  j.filterMap (Event.reported? name)

def created (j : Journal) : List Nat :=
  j.filterMap Event.created?

def destroyed (j : Journal) : List Nat :=
  j.filterMap Event.destroyed?

/-- The contexts that were created and not yet destroyed. -/
def live (j : Journal) : List Nat :=
  j.created.filter fun id => !j.destroyed.contains id

def notes (j : Journal) : List Note :=
  j.filterMap Event.note?

theorem sink_append (j k : Journal) (name : String) :
    sink (j ++ k) name = j.sink name ++ k.sink name := by
  simp [sink]

theorem created_append (j k : Journal) : created (j ++ k) = j.created ++ k.created := by
  simp [created]

theorem destroyed_append (j k : Journal) :
    destroyed (j ++ k) = j.destroyed ++ k.destroyed := by
  simp [destroyed]

theorem notes_append (j k : Journal) : notes (j ++ k) = j.notes ++ k.notes := by
  simp [notes]

end Journal

end ProgramHost
