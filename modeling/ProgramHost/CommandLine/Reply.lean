import ProgramHost.CommandLine.Directory
import ProgramHost.CommandLine.Options
import ProgramHost.Text.Terminal
/-!
# The command line

The program validates and runs one module and tells what came of it: the value
or the diagnostics, for reading or as one document. It exits with 0 if there is
a value, with 1 if there is none, and with 2 if it could not begin.
-/

namespace ProgramHost.CommandLine

/-- What the program writes and the code it exits with. Values and diagnostics go to the output,
and only what keeps the program from beginning goes to the error stream. -/
structure Reply where
  exit : UInt8
  out : String
  err : String
  deriving DecidableEq, Repr

def versionText : Text.Styled := [⟨.plain, "conduit 0.1.0\n"⟩]

/-- The entry of an option in the list of options: what stands before its name,
the name and what follows. -/
def helpEntry (indent name rest : String) : Text.Styled :=
  [⟨.plain, indent⟩, ⟨.literal, name⟩, ⟨.plain, rest⟩]

def helpText : Text.Styled :=
  [⟨.plain, "Validate and run a compiled module, reporting its diagnostics\n\n"⟩,
    ⟨.header, "Usage:"⟩, ⟨.plain, " "⟩, ⟨.literal, "conduit"⟩,
    ⟨.plain, " [OPTIONS] <MODULE>\n\n"⟩,
    ⟨.header, "Arguments:"⟩,
    ⟨.plain, "\n  <MODULE>  Module to run, in binary (.wasm) or text (.wat) format\n\n"⟩,
    ⟨.header, "Options:"⟩, ⟨.plain, "\n"⟩] ++
  helpEntry "      " "--entry"
    " <ENTRY>                  Exported entry point function [default: main]\n" ++
  helpEntry "      " "--memory"
    " <MEMORY>                Exported linear memory holding the result [default: memory]\n" ++
  helpEntry "      " "--import-module"
    " <IMPORT_MODULE>  Import namespace of the fault entry point [default: env]\n" ++
  helpEntry "      " "--fault-import"
    " <FAULT_IMPORT>    Import name of the fault entry point [default: fault]\n" ++
  helpEntry "      " "--json"
    "                           Print the value and diagnostics as JSON\n" ++
  helpEntry "  " "-h" ", " ++
  helpEntry "" "--help" "                           Print help\n" ++
  helpEntry "  " "-V" ", " ++
  helpEntry "" "--version" "                        Print version\n"

structure Environment where
  colourForced : Option String
  colourRefused : Option String
  deriving DecidableEq, Repr

namespace Environment

def read {m : Type → Type} [Monad m] (get : String → m (Option String)) : m Environment :=
  return ⟨← get "CLICOLOR_FORCE", ← get "NO_COLOR"⟩

/-- Diagnostics are coloured if colours are forced, but not by `0`. -/
def coloursReport (e : Environment) : Bool :=
  match e.colourForced with
  | some value => value != "0"
  | none => false

def isFilled (setting : Option String) : Bool :=
  setting.getD "" != ""

/-- What is said about the arguments is styled if colours are forced and not
refused, an empty setting counting for none. -/
def stylesUsage (e : Environment) : Bool :=
  isFilled e.colourForced && !isFilled e.colourRefused

end Environment

/-- A styled text as it is written. Without styles no control sequence is left,
not even one that came with an argument. -/
def usageText (styled : Bool) (t : Text.Styled) : String :=
  if styled then t.marked
  else String.ofList (Text.Terminal.visible t.marked.toList)

def sinkName : String := "main"

def Exit.reply (styled : Bool) : Exit → Reply
  | .help => ⟨0, usageText styled helpText, ""⟩
  | .version => ⟨0, usageText styled versionText, ""⟩
  | .mistake m => ⟨2, "", usageText styled m.message ++ "\n"⟩

def ReadFailure.reply (path : String) (e : ReadFailure) : Reply :=
  ⟨2, "", "Could not read " ++ path ++ ": " ++ e.message ++ "\n"⟩

/-- The document of a request: its value, or null, and its diagnostics. A value is never null
itself, so null says that there is none. -/
def document (ds : List Diagnostic) (r : Except EvalError Value) : Json :=
  .object [
    ("value", match r with
      | .ok v => v.toJson
      | .error _ => .null),
    ("diagnostics", .array (ds.map Diagnostic.toJson))]

/-- The document as it is written: with sorted names, on a line of its own. -/
def documentText (ds : List Diagnostic) (r : Except EvalError Value) : String :=
  (document ds r).sorted.compact ++ "\n"

def valueText : Except EvalError Value → String
  | .ok v => String.ofList v.display ++ "\n"
  | .error _ => ""

def plainText (colour : Bool) (ds : List Diagnostic) (r : Except EvalError Value) : String :=
  String.join (ds.map (Diagnostic.printed colour)) ++ valueText r

def exitCode : Except EvalError Value → UInt8
  | .ok _ => 0
  | .error _ => 1

def reply (json colour : Bool) (ds : List Diagnostic) (r : Except EvalError Value) : Reply where
  exit := exitCode r
  out := if json then documentText ds r else plainText colour ds r
  err := ""

def serve? (fuel : Nat) (o : Options) (colour : Bool) (b : Binary) : Option Reply :=
  (Host.execute? fuel o.settings sinkName b).map fun (j, r) =>
    reply o.json colour (j.sink sinkName) r

/-- The reply to the arguments, given the environment and the way to read a file;
`none` if the module does not end within the fuel. -/
def respond? (fuel : Nat) (arguments : List String) (e : Environment)
    (read : String → Except ReadFailure Binary) : Option Reply :=
  match Options.parse arguments with
  | .error x => some (x.reply e.stylesUsage)
  | .ok o =>
      match read o.path with
      | .error x => some (x.reply o.path)
      | .ok b => serve? fuel o e.coloursReport b

end ProgramHost.CommandLine
