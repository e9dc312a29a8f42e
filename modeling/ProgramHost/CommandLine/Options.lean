import ProgramHost.Settings
import ProgramHost.Text.Styled
/-!
# Arguments of the command line

The arguments are read from left to right. An option that takes a value and the
module are settled only when the next option or the next argument begins, so of
two mistakes the one that is settled first is reported; an argument that is not
known at all is reported at once. After `--` everything is a module.
-/

namespace ProgramHost.CommandLine

/-- An option that takes a value. -/
inductive Setting where
  | entry
  | memory
  | importModule
  | faultImport
  deriving DecidableEq, Repr

namespace Setting

def key : Setting → String
  | .entry => "entry"
  | .memory => "memory"
  | .importModule => "import-module"
  | .faultImport => "fault-import"

def display : Setting → String
  | .entry => "--entry <ENTRY>"
  | .memory => "--memory <MEMORY>"
  | .importModule => "--import-module <IMPORT_MODULE>"
  | .faultImport => "--fault-import <FAULT_IMPORT>"

def ofKey? (key : String) : Option Setting :=
  [entry, memory, importModule, faultImport].find? fun o => o.key = key

end Setting

inductive Mistake where
  | moduleMissing
  | unexpectedArgument (argument : String)
  | unexpectedValue (value flag : String)
  | valueMissing (display : String)
  | repeated (display : String)
  deriving DecidableEq, Repr

def Mistake.wording : Mistake → Text.Styled
  | .moduleMissing => [⟨.plain, "the following required arguments were not provided:"⟩]
  | .unexpectedArgument argument =>
      [⟨.plain, "unexpected argument '"⟩, ⟨.invalid, argument⟩, ⟨.plain, "' found"⟩]
  | .unexpectedValue value flag =>
      [⟨.plain, "unexpected value '"⟩, ⟨.invalid, value⟩, ⟨.plain, "' for '"⟩,
        ⟨.literal, flag⟩, ⟨.plain, "' found; no more were expected"⟩]
  | .valueMissing display =>
      [⟨.plain, "a value is required for '"⟩, ⟨.invalid, display⟩,
        ⟨.plain, "' but none was supplied"⟩]
  | .repeated display =>
      [⟨.plain, "the argument '"⟩, ⟨.invalid, display⟩,
        ⟨.plain, "' cannot be used multiple times"⟩]

def Mistake.message (m : Mistake) : Text.Styled :=
  ⟨.error, "error:"⟩ :: ⟨.plain, " "⟩ :: m.wording

/-- Why the arguments do not ask for a run. -/
inductive Exit where
  | help
  | version
  | mistake (m : Mistake)
  deriving DecidableEq, Repr

/-- What the arguments ask for: the module, the names of the interface that it is run with, and
whether a document is wanted. -/
structure Options where
  path : String
  settings : Settings
  json : Bool
  deriving DecidableEq, Repr

/-- An argument that is not settled yet. It is stored, looked at for a repetition and refused if
empty only when the next one begins, so a later mistake can come first. -/
inductive Unsettled where
  | option (o : Setting) (value : Option String)
  | path (p : String)
  deriving DecidableEq, Repr

/-- How far the arguments have been read. -/
structure Reading where
  values : List (Setting × String)
  json : Bool
  path : Option String
  unsettled : Option Unsettled
  trailing : Bool
  deriving DecidableEq, Repr

namespace Reading

def initial : Reading := ⟨[], false, none, none, false⟩

def setValue (r : Reading) (o : Setting) (value : String) : Except Exit Reading :=
  if (r.values.lookup o).isSome then .error (.mistake (.repeated o.display))
  else .ok { r with values := (o, value) :: r.values }

/-- Settles the argument before the one at hand. -/
def settle (r : Reading) : Except Exit Reading :=
  let done := { r with unsettled := none }
  match r.unsettled with
  | none => .ok done
  | some (.option o none) => .error (.mistake (.valueMissing o.display))
  | some (.option o (some value)) => done.setValue o value
  | some (.path "") => .error (.mistake (.valueMissing "<MODULE>"))
  | some (.path p) => .ok { done with path := some p }

def hasPath (r : Reading) : Bool :=
  match r.unsettled with
  | some (.path _) => true
  | _ => r.path.isSome

def readPath (r : Reading) (argument : String) : Except Exit Reading := do
  if r.hasPath then .error (.mistake (.unexpectedArgument argument))
  else
    let r ← r.settle
    return { r with unsettled := some (.path argument) }

def readJson (r : Reading) : Except Exit Reading := do
  let r ← r.settle
  if r.json then .error (.mistake (.repeated "--json"))
  else return { r with json := true }

def readOption (r : Reading) (o : Setting) (value : Option String) : Except Exit Reading := do
  let r ← r.settle
  match value with
  | some value => r.setValue o value
  | none => return { r with unsettled := some (.option o none) }

/-- Settles what is before, and leaves for another reason than a run. -/
def exitWith (r : Reading) (e : Exit) : Except Exit Reading := do
  let _ ← r.settle
  .error e

def readLong (r : Reading) (name : String) (value : Option String) : Except Exit Reading :=
  match Setting.ofKey? name with
  | some o => r.readOption o value
  | none =>
      if name = "json" ∨ name = "help" ∨ name = "version" then
        match value with
        | some value => .error (.mistake (.unexpectedValue value ("--" ++ name)))
        | none =>
            if name = "json" then r.readJson
            else r.exitWith (if name = "help" then .help else .version)
      else .error (.mistake (.unexpectedArgument ("--" ++ name)))

def readShort (r : Reading) (c : Char) : Except Exit Reading :=
  if c = 'h' then r.exitWith .help
  else if c = 'V' then r.exitWith .version
  else .error (.mistake (.unexpectedArgument (String.ofList ['-', c])))

/-- Reads an argument without a dash: the value that an option waits for, or a
module. -/
def readPlain (r : Reading) (argument : String) : Except Exit Reading :=
  match r.unsettled with
  | some (.option o none) => .ok { r with unsettled := some (.option o (some argument)) }
  | _ => r.readPath argument

def splitLong (cs : List Char) : String × Option String :=
  match cs.dropWhile (· ≠ '=') with
  | [] => (String.ofList cs, none)
  | _ :: value => (String.ofList (cs.takeWhile (· ≠ '=')), some (String.ofList value))

def read (r : Reading) (argument : String) : Except Exit Reading :=
  if r.trailing then r.readPath argument
  else
    match argument.toList with
    | ['-', '-'] => .ok { r with trailing := true }
    | '-' :: '-' :: cs =>
        let (name, value) := splitLong cs
        r.readLong name value
    | '-' :: c :: _ => r.readShort c
    | _ => r.readPlain argument

def finish (r : Reading) : Except Exit Options := do
  let r ← r.settle
  match r.path with
  | none => .error (.mistake .moduleMissing)
  | some path =>
      return {
        path := path
        settings := {
          entryPoint := (r.values.lookup .entry).getD "main"
          memoryExport := (r.values.lookup .memory).getD "memory"
          importSpace := (r.values.lookup .importModule).getD "env"
          faultImport := (r.values.lookup .faultImport).getD "fault" }
        json := r.json }

end Reading

/-- Reads the arguments of the command line. -/
def Options.parse (arguments : List String) : Except Exit Options := do
  (← arguments.foldlM Reading.read .initial).finish

end ProgramHost.CommandLine
