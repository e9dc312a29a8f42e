import ProgramHost.Error
import ProgramHost.Host
/-!
# Parsers and compilers

A parser answers a source text with diagnostics and perhaps a tree. A compiler
is known by what it does in each context: the remarks it makes when the context
is created, before and after it pauses, and when the context is destroyed, and
what its work comes to in the end.
-/

namespace ProgramHost

/-- What a compiler says through the callback of its context. It is reported at once, and its code
alone decides whether it is an error. -/
structure Remark where
  severityCode : UInt32
  message : String
  line : UInt32
  column : UInt32
  deriving DecidableEq, Repr

namespace Remark

def diagnostic (r : Remark) : Diagnostic :=
  .ofCompiler r.severityCode r.message r.line r.column

def isError (r : Remark) : Bool := r.diagnostic.isError

end Remark

/-- What the work of a compiler comes to. -/
inductive Product where
  | module (b : Binary)
  | complaint (c : Complaint)
  | panic (message : String)

/-- What a compiler does in one context, from the creation to the destruction. Remarks can be made
at each of the two, and before and after the pauses of the work between them. -/
structure Script where
  onCreate : List Remark
  early : List Remark
  pauses : Nat
  late : List Remark
  product : Product
  onDestroy : List Remark

/-- A parser: the diagnostics it reports and the tree, if there is one. -/
abbrev Parser : Type := String → List Diagnostic × Option Tree

/-- A compiler: what it does in the context of each number. -/
abbrev Compiler : Type := Nat → Script

/-- The compiler that follows the scripts of a list, and the last of them in all
further contexts. -/
def Compiler.ofScripts (default : Script) (scripts : List Script) : Compiler :=
  fun id => (scripts[id]?).getD (scripts.getLastD default)

def containsText (part : List Char) : List Char → Bool
  | [] => part.isEmpty
  | c :: cs => part.isPrefixOf (c :: cs) || containsText part cs

def unparseableMark : List Char := "@unparseable".toList

/-- The parser that makes the same remarks on every source text and has a table
of trees. A text that is not in the table is the one entry of a map. -/
def Parser.ofTable (remarks : List Remark) (trees : List (String × Tree)) : Parser :=
  fun source =>
    (remarks.map Remark.diagnostic,
      if containsText unparseableMark source.toList then none
      else some ((trees.lookup source).getD (.map [(.text "source", .text source)])))

end ProgramHost
