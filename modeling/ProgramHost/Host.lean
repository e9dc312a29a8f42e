import ProgramHost.Error
import ProgramHost.Journal
import ProgramHost.Program.Run
/-!
# The host

The host is given a module as bytes or as a definition. It validates the module
and runs the executable that this gives. Of modules given as bytes it knows the
one without anything in it, in its binary and in its textual form.
-/

namespace ProgramHost

open Program

/-- A module before it is validated: the bytes that a compiler gave out or a file holds, or the
description of what is in them. -/
inductive Binary where
  | raw (bytes : List UInt8)
  | defined (d : Definition)

namespace Binary

def size? : Binary → Option Nat
  | .raw bytes => some bytes.length
  | .defined _ => none

def emptyBytes : List UInt8 := [0x00, 0x61, 0x73, 0x6d, 0x01, 0x00, 0x00, 0x00]

def emptyText : List UInt8 := Text.Utf8.encode "(module)".toList

def isBlank (b : UInt8) : Bool :=
  b = 0x20 || b = 0x09 || b = 0x0a || b = 0x0d

def trim (bytes : List UInt8) : List UInt8 :=
  ((bytes.dropWhile isBlank).reverse.dropWhile isBlank).reverse

/-- The definition that a host reads. Of all modules that are given by bytes it is known for
one alone, the module without anything in it. Every other sequence of bytes is refused here,
also where a host with a whole reader of modules would accept it. -/
def definition? : Binary → Option Definition
  | .raw bytes =>
      if bytes = emptyBytes ∨ trim bytes = emptyText then some .empty else none
  | .defined d => some d

end Binary

namespace Host

def refusal : String := "<host>"

def validate (b : Binary) : Except String Executable :=
  match b.definition? with
  | some d => if h : d.Valid then .ok ⟨d, h⟩ else .error refusal
  | none => .error refusal

/-- Validates a module for a request: what happens, and the executable. A refusal
is reported. -/
def accept (sink : String) (b : Binary) : Journal × Except CompileError Executable :=
  match validate b with
  | .ok x => ([.note .validated], .ok x)
  | .error message =>
      ([.note (.rejected message), .report sink (.ofRejection message)], .error .invalid)

end Host

namespace Program.Ending

def events (sink : String) : Ending → Journal
  | .value v => [.note (.decoded v)]
  | .fault c =>
      [.note (.faulted c), .report sink (.ofFault (.ofCode c.code) c.line c.column)]
  | .failure e => [.note (.failed e.description), .report sink (.ofFailure e.description)]

def result : Ending → Except RunError Value
  | .value v => .ok v
  | .fault _ => .error .faulted
  | .failure e => .error (.failed e)

end Program.Ending

namespace Host

/-- Runs an executable for a request: what happens, and the value. -/
def run? (fuel : Nat) (s : Settings) (sink : String) (x : Executable) :
    Option (Journal × Except RunError Value) :=
  (x.run? s fuel).map fun e => (e.events sink, e.result)

def execute? (fuel : Nat) (s : Settings) (sink : String) (b : Binary) :
    Option (Journal × Except EvalError Value) :=
  match accept sink b with
  | (j, .error e) => some (j, .error (.compile e))
  | (j, .ok x) =>
      (run? fuel s sink x).map fun (k, r) => (j ++ k, r.mapError .run)

end Host

end ProgramHost
