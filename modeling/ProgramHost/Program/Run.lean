import ProgramHost.Memory.Paged
import ProgramHost.Program.Failure
import ProgramHost.Settings
import ProgramHost.Value.Decode
/-!
# Running an executable

A run goes through its stages in order, and the first one that does not succeed
ends it. The imports are linked, the segments are laid out, the start function
is called, the entry point is looked up and called, the memory is looked up, and
the value is decoded from it.

A run that has not ended within its fuel is `none`; apart from that a stage
either gives its result or the reason why the run stops there.
-/

namespace ProgramHost.Program

/-- Why a run stops before its end. A fault is no failure: it is told by its code and place, and
not by a message. -/
inductive Stop where
  | fault (c : FaultCall)
  | failure (e : Failure)
  deriving DecidableEq, Repr

/-- How a run ends. The three ways are kept apart up to the result that is given for the run, so
a fault is never mistaken for a failure and never reported twice. -/
inductive Ending where
  | value (v : Value)
  | fault (c : FaultCall)
  | failure (e : Failure)
  deriving DecidableEq, Repr

/-- How deep calls can go: a stack of 512 KiB has room for so many of the least
frames, each a return address and a frame pointer. -/
def stackDepth : Nat := 32768

namespace Executable

def resolve (s : Settings) : List Import → Except Failure Unit
  | [] => .ok ()
  | i :: is =>
      if i.space = s.importSpace ∧ i.name = s.faultImport then resolve s is
      else .error (.unknownImport i.space i.name)

def checkTypes : List Import → Except Failure Unit
  | [] => .ok ()
  | i :: is =>
      if i.type = .function faultSignature then checkTypes is
      else .error (.incompatibleImport i.space i.name i.type)

def initialMemory (d : Definition) : Memory :=
  match d.memory with
  | some l => .fresh l.pages (l.most.getD Memory.mostPages)
  | none => .fresh 0 0

/-- Puts the segments into memory in their order. -/
def layOut : List Segment → Memory → Except Failure Memory
  | [], m => .ok m
  | g :: gs, m =>
      match m.write? g.offset.toNat g.bytes with
      | some m => layOut gs m
      | none => .error (.segmentTrap .outOfBounds)

/-- The memory of an instance before its start function is called. Of the imports all names are
looked at first and then all types, and no segment is laid out unless they are in order. -/
def link (x : Executable) (s : Settings) : Except Failure Memory := do
  resolve s x.definition.imports
  checkTypes x.definition.imports
  layOut x.definition.segments (initialMemory x.definition)

def invoke (x : Executable) (fuel i : Nat) (m : Memory) : Option (Except Stop Memory) :=
  match exec x.definition.body fuel stackDepth (x.definition.body i) ⟨.zero, m⟩ with
  | .next f => some (.ok f.memory)
  | .left f => some (.ok f.memory)
  | .halted (.fault c) => some (.error (.fault c))
  | .halted (.trap t) => some (.error (.failure (.trap t)))
  | .unfinished => none

def runStart (x : Executable) (fuel : Nat) (m : Memory) : Option (Except Stop Memory) :=
  match x.definition.start with
  | some i => x.invoke fuel i m
  | none => some (.ok m)

/-- An instance ready for its entry point: the imports are linked, the segments
laid out and the start function has returned. -/
def instantiate (x : Executable) (s : Settings) (fuel : Nat) :
    Option (Except Stop Memory) :=
  match x.link s with
  | .ok m => x.runStart fuel m
  | .error e => some (.error (.failure e))

/-- The number of the entry point, which has neither parameters nor results. -/
def entry (x : Executable) (name : String) : Except Failure Nat :=
  match x.definition.lookup? name with
  | none => .error (.missingEntry name)
  | some item =>
      match x.definition.signature? item with
      | none => .error (.missingEntry name)
      | some g =>
          if g.params ≠ [] then .error (.entryParameters name g.params.length)
          else if g.results ≠ [] then .error (.entryResults name g.results.length)
          else
            match item with
            | .function i => .ok i
            | _ => .error (.missingEntry name)

def offersMemory (x : Executable) (name : String) : Bool :=
  x.definition.lookup? name = some .memory

def finish (x : Executable) (s : Settings) (m : Memory) : Ending :=
  if x.offersMemory s.memoryExport then .value (Value.decode m.image)
  else .failure (.missingMemory s.memoryExport)

def Stop.ending : Stop → Ending
  | .fault c => .fault c
  | .failure e => .failure e

def callEntry (x : Executable) (s : Settings) (fuel : Nat) (m : Memory) :
    Option (Except Stop Memory) :=
  match x.entry s.entryPoint with
  | .ok i => x.invoke fuel i m
  | .error e => some (.error (.failure e))

/-- The end of a run, if it is reached within the fuel. Each stage is entered only if the ones
before it succeeded, so the first stage that does not succeed decides. -/
def run? (x : Executable) (s : Settings) (fuel : Nat) : Option Ending :=
  match x.instantiate s fuel with
  | none => none
  | some (.error e) => some (Stop.ending e)
  | some (.ok m) =>
      match x.callEntry s fuel m with
      | none => none
      | some (.error e) => some (Stop.ending e)
      | some (.ok m) => some (x.finish s m)

end Executable

end ProgramHost.Program
