import ProgramHost.Program.Code
import ProgramHost.Program.Signature
/-!
# Operands

A call takes its parameters off the operands that lie ready and puts its results
there. A branch, a loop and the body of a function begin without operands of
their own. A branch and the body of a function end without any, so what a call
leaves over is taken by a later call of the same block, or the function is left
before the block ends; a turn of a loop gives its operands up. Code that follows
a jump is not reached, and operands that are missing there are supplied as they
are needed.

`bodyOperands? c ss o` is what lies ready after the statements `ss`, if each of
them finds what it takes, and `Balanced c body` says that a body leaves nothing.
-/

namespace ProgramHost.Program

/-- The operands of a block, the last one first, and whether the place at which
they lie ready is reached. -/
structure Operands where
  ready : List ValueType
  reached : Bool
  deriving DecidableEq, Repr

namespace Operands

def start : Operands := ⟨[], true⟩

def afterJump : Operands := ⟨[], false⟩

def take? : List ValueType → Operands → Option Operands
  | [], o => some o
  | t :: ts, ⟨u :: us, reached⟩ => if u = t then take? ts ⟨us, reached⟩ else none
  | _ :: _, ⟨[], true⟩ => none
  | _ :: _, ⟨[], false⟩ => some afterJump

def put (o : Operands) (ts : List ValueType) : Operands :=
  ⟨ts.reverse ++ o.ready, o.reached⟩

/-- The operands after a function of a given type is called. -/
def call? (o : Operands) (s : Signature) : Option Operands :=
  (o.take? s.params.reverse).map fun o => o.put s.results

@[simp] theorem take?_nil (o : Operands) : o.take? [] = some o := by
  cases o
  rfl

theorem take?_append (ts us : List ValueType) (reached : Bool) :
    take? ts ⟨ts ++ us, reached⟩ = some ⟨us, reached⟩ := by
  induction ts with
  | nil => rfl
  | cons t ts ih => simp [take?, ih]

theorem take?_put (o : Operands) (ts : List ValueType) :
    (o.put ts).take? ts.reverse = some o :=
  take?_append ts.reverse o.ready o.reached

theorem take?_eq_some_iff (ts : List ValueType) {o p : Operands} (h : o.reached = true) :
    o.take? ts = some p ↔ o.ready = ts ++ p.ready ∧ p.reached = true := by
  obtain ⟨us, reached⟩ := o
  subst h
  induction ts generalizing us with
  | nil => cases p; simp
  | cons t ts ih =>
      cases us with
      | nil => simp [take?]
      | cons u us =>
          by_cases hut : u = t
          · simp [take?, hut, ih]
          · simp [take?, hut]

theorem call?_plain (o : Operands) : o.call? plainSignature = some o := by
  simp [call?, plainSignature, put]

end Operands

/-- What the code of a function refers to: the functions of the module, the
function through which it reports faults, and the results of its own. -/
structure Scope where
  functions : List Signature
  fault : Option Signature
  results : List ValueType

def Action.operands? (c : Scope) (o : Operands) : Action → Option Operands
  | .fault _ _ _ _ _ => c.fault.bind (o.put faultSignature.params).call?
  | .unreachable => some .afterJump
  | _ => some o

mutual

def Stmt.operands? (c : Scope) : Stmt → Operands → Option Operands
  | .act a, o => a.operands? c o
  | .call i, o => (c.functions[i]?).bind o.call?
  | .branch _ yes no, o =>
      match bodyOperands? c yes .start, bodyOperands? c no .start with
      | some y, some n => if y.ready = [] ∧ n.ready = [] then some o else none
      | _, _ => none
  | .loop _ body, o => (bodyOperands? c body .start).map fun _ => o
  | .leave, o => (o.take? c.results.reverse).map fun _ => .afterJump

def bodyOperands? (c : Scope) : List Stmt → Operands → Option Operands
  | [], o => some o
  | s :: rest, o =>
      match s.operands? c o with
      | some o => bodyOperands? c rest o
      | none => none

end

/-- Every statement of a body finds the operands that it takes, and none are left
at the end. -/
def Balanced (c : Scope) (body : List Stmt) : Prop :=
  (bodyOperands? c body .start).map Operands.ready = some []

instance (c : Scope) (body : List Stmt) : Decidable (Balanced c body) := by
  unfold Balanced
  infer_instance

theorem balanced_nil (c : Scope) : Balanced c [] := rfl

theorem balanced_call_cons (c : Scope) {i : Nat} (h : c.functions[i]? = some plainSignature)
    (body : List Stmt) : Balanced c (.call i :: body) ↔ Balanced c body := by
  simp [Balanced, bodyOperands?, Stmt.operands?, h, Operands.call?_plain]

/-- What a call leaves over is given up by leaving the function. -/
example : Balanced ⟨[⟨[], [.i32]⟩], none, []⟩ [.call 0, .leave] := by decide

example : ¬ Balanced ⟨[⟨[], [.i32]⟩], none, []⟩ [.call 0] := by decide

example : ¬ Balanced ⟨[⟨[], [.i32]⟩], none, []⟩ [.leave, .call 0] := by decide

/-- A loop gives its operands up, a branch does not. -/
example : Balanced ⟨[⟨[], [.i32]⟩], none, []⟩ [.loop (.const 0) [.call 0]] := by decide

example : ¬ Balanced ⟨[⟨[], [.i32]⟩], none, []⟩ [.branch (.const 0) [.call 0] []] := by
  decide

/-- Operands that are missing after a jump are supplied. -/
example : Balanced ⟨[⟨[.i32], []⟩], none, []⟩ [.act .unreachable, .call 0] := by decide

end ProgramHost.Program
