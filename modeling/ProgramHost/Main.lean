import ProgramHost.CommandLine.Reply
/-!
# The executable

Reads the environment and the file that the arguments name, and writes the
reply.
-/

namespace ProgramHost.CommandLine

def runFuel : Nat := Nat.pow 2 60

def errorNumber (code : UInt32) : UInt32 :=
  if code < 0x80000000 then code else 0 - code

def ReadFailure.ofError (e : IO.Error) : ReadFailure :=
  match e with
  | .noFileOrDirectory .. => .missing
  | .inappropriateType _ code _ => if errorNumber code = 20 then .notDirectory else .isDirectory
  | .invalidArgument _ code _ =>
      if errorNumber code = 36 then .nameTooLong else .other (toString e)
  | _ => .other (toString e)

def readModule (path : String) : IO (Except ReadFailure Binary) := do
  try
    return .ok (.raw (← IO.FS.readBinFile path).toList)
  catch e => return .error (.ofError e)

end ProgramHost.CommandLine

open ProgramHost.CommandLine in
/-- Answers the arguments of the command line. -/
def main (arguments : List String) : IO UInt32 := do
  let environment ← Environment.read fun name => IO.getEnv name
  let file ←
    match Options.parse arguments with
    | .ok o => readModule o.path
    | .error _ => pure (.error .missing)
  match respond? runFuel arguments environment fun _ => file with
  | some reply =>
      IO.print reply.out
      IO.eprint reply.err
      return reply.exit.toUInt32
  | none => return 1
