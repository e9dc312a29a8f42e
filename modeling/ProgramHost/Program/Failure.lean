import ProgramHost.Numeral.Radix
import ProgramHost.Program.Definition
import ProgramHost.Program.Execute
/-!
# Failures of a run

A run that neither leaves a value nor reports a fault has a failure. A failure
has a message and the messages of its causes, from the outer to the inner; its
description is all of them on one line.
-/

namespace ProgramHost.Program

/-- Why a run failed. A trap while the segments are laid out has no function
around it. -/
inductive Failure where
  | unknownImport (space name : String)
  | incompatibleImport (space name : String) (wanted : ImportType)
  | segmentTrap (t : Trap)
  | trap (t : Trap)
  | missingEntry (name : String)
  | entryParameters (name : String) (count : Nat)
  | entryResults (name : String) (count : Nat)
  | missingMemory (name : String)
  deriving DecidableEq, Repr

def Trap.message : Trap → String
  | .unreachable => "wasm trap: wasm `unreachable` instruction executed"
  | .divisionByZero => "wasm trap: integer divide by zero"
  | .overflow => "wasm trap: integer overflow"
  | .outOfBounds => "wasm trap: out of bounds memory access"
  | .stackExhausted => "wasm trap: call stack exhausted"

def Trap.name : Trap → String
  | .unreachable => "UnreachableCodeReached"
  | .divisionByZero => "IntegerDivisionByZero"
  | .overflow => "IntegerOverflow"
  | .outOfBounds => "MemoryOutOfBounds"
  | .stackExhausted => "StackOverflow"

def ValueType.display : ValueType → String
  | .i32 => "i32"
  | .i64 => "i64"
  | .f32 => "f32"
  | .f64 => "f64"

/-- A part of a function type; an empty one is left out. -/
def Signature.part (key : String) : List ValueType → String
  | [] => ""
  | ts => " (" ++ key ++ " " ++ " ".intercalate (ts.map ValueType.display) ++ ")"

def Signature.display (s : Signature) : String :=
  "(func" ++ Signature.part "param" s.params ++ Signature.part "result" s.results ++ ")"

/-- How an import of this type differs from the function that is there. -/
def ImportType.mismatch : ImportType → String
  | .function s =>
      "types incompatible: expected type `" ++ s.display ++ "`, found type `" ++
        faultSignature.display ++ "`"
  | .memory _ => "expected memory, but found function"
  | .global _ => "expected global, but found function"

namespace Failure

def message : Failure → String
  | .unknownImport space name =>
      "unknown import: `" ++ space ++ "::" ++ name ++ "` has not been defined"
  | .incompatibleImport space name _ =>
      "incompatible import type for `" ++ space ++ "::" ++ name ++ "`"
  | .segmentTrap t => t.message
  | .trap _ => "error while executing at wasm backtrace:"
  | .missingEntry name => "failed to find function export `" ++ name ++ "`"
  | .entryParameters name _ => "failed to convert function `" ++ name ++ "` to given type"
  | .entryResults name _ => "failed to convert function `" ++ name ++ "` to given type"
  | .missingMemory name => "module does not export a memory named `" ++ name ++ "`"

def surplus (count : Nat) : String :=
  "expected 0 types, found " ++ Numeral.Radix.decimalString count

def sources : Failure → List String
  | .incompatibleImport _ _ wanted => [wanted.mismatch]
  | .trap t => [t.message]
  | .entryParameters _ count => ["type mismatch with parameters", surplus count]
  | .entryResults _ count => ["type mismatch with results", surplus count]
  | _ => []

def trapName? : Failure → Option String
  | .segmentTrap t => some t.name
  | .trap t => some t.name
  | _ => none

def description (e : Failure) : String :=
  ": ".intercalate (e.message :: e.sources)

end Failure

end ProgramHost.Program
