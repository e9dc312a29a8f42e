import ProgramHost.Program.Failure
import ProgramHost.Tree
/-!
# Errors of a request

A request to compile, to run or to do both fails for one of a few reasons. What
a collaborator said is kept unchanged: its message and the messages of its
causes, from the outer to the inner.
-/

namespace ProgramHost

/-- The message of a collaborator and those of its causes, from the outermost inward. -/
structure Complaint where
  message : String
  sources : List String
  deriving DecidableEq, Repr

/-- The complaint that is wrapped step by step, the innermost message first. -/
def Complaint.ofInnermost (messages : List String) : Complaint :=
  match messages.reverse with
  | [] => ⟨"", []⟩
  | message :: sources => ⟨message, sources⟩

inductive CompileError where
  | unparsed
  | unserialized (e : TreeError)
  | backend (c : Complaint)
  | flagged
  | invalid
  deriving DecidableEq, Repr

inductive RunError where
  | faulted
  | failed (e : Program.Failure)
  deriving DecidableEq, Repr

inductive EvalError where
  | compile (e : CompileError)
  | run (e : RunError)
  deriving DecidableEq, Repr

def CompileError.complaint : CompileError → Complaint
  | .unparsed => ⟨"parse failure", []⟩
  | .unserialized e => ⟨"failed to serialize syntax tree: " ++ e.message, [e.message]⟩
  | .backend c => c
  | .flagged => ⟨"syntax error", []⟩
  | .invalid => ⟨"module validation error", []⟩

def CompileError.name : CompileError → String
  | .unparsed => "Parse"
  | .unserialized _ => "Serialize"
  | .backend _ => "Backend"
  | .flagged => "Syntax"
  | .invalid => "Validation"

def RunError.complaint : RunError → Complaint
  | .faulted => ⟨"runtime error", []⟩
  | .failed e => ⟨e.message, e.sources⟩

def RunError.name : RunError → String
  | .faulted => "Runtime"
  | .failed _ => "Host"

def EvalError.complaint : EvalError → Complaint
  | .compile e => e.complaint
  | .run e => e.complaint

def EvalError.name : EvalError → String
  | .compile e => "Compile." ++ e.name
  | .run e => "Run." ++ e.name

end ProgramHost
