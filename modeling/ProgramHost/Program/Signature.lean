/-!
# Signatures

A signature is the type of a function: the types of its parameters and of its
results.
-/

namespace ProgramHost.Program

inductive ValueType where
  | i32 | i64 | f32 | f64
  deriving DecidableEq, Repr

structure Signature where
  params : List ValueType
  results : List ValueType
  deriving DecidableEq, Repr

/-- The type of the function through which faults are reported: code, detail, file, line and
column are all words, and it never returns anything. -/
def faultSignature : Signature := ⟨List.replicate 5 .i32, []⟩

def plainSignature : Signature := ⟨[], []⟩

namespace Signature

/-- A function has at most a thousand parameters and at most a thousand results. -/
def Valid (s : Signature) : Prop :=
  s.params.length ≤ 1000 ∧ s.results.length ≤ 1000

instance (s : Signature) : Decidable s.Valid := by
  unfold Valid
  infer_instance

def bulk (s : Signature) : Nat := s.params.length + s.results.length + 2

end Signature

end ProgramHost.Program
