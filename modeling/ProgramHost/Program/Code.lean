import ProgramHost.Program.Arithmetic
/-!
# Code

The body of a function is a list of statements over expressions on words and
reals. Every function has four words of its own, the slots, which are zero when
it is entered. Functions take no arguments from each other.
-/

namespace ProgramHost.Program

/-- One of the four words of a function. -/
abbrev Slot : Type := Fin 4

inductive Expr where
  | const (x : UInt32)
  | slot (i : Slot)
  | load (address : Expr)
  | load8 (address : Expr)
  | size
  | grow (pages : Expr)
  | binary (op : WordOp) (x y : Expr)
  deriving Repr

inductive RealExpr where
  | const (bits : UInt64)
  | ofSigned (x : Expr)
  | ofUnsigned (x : Expr)
  | load (address : Expr)
  | binary (op : RealOp) (x y : RealExpr)
  deriving Repr

/-- A statement without statements inside. Its expressions are evaluated from left to right, and
it either yields a frame or halts the execution. -/
inductive Action where
  | store (address x : Expr)
  | store8 (address x : Expr)
  | storeReal (address : Expr) (x : RealExpr)
  | fill (address byte len : Expr)
  | copy (target source len : Expr)
  | set (i : Slot) (x : Expr)
  | drop (x : Expr)
  | fault (code detail file line column : Expr)
  | unreachable
  deriving Repr

inductive Stmt where
  | act (a : Action)
  | call (i : Nat)
  | branch (x : Expr) (yes no : List Stmt)
  | loop (x : Expr) (body : List Stmt)
  | leave

namespace Expr

def usesMemory : Expr → Bool
  | .const _ => false
  | .slot _ => false
  | .load _ => true
  | .load8 _ => true
  | .size => true
  | .grow _ => true
  | .binary _ x y => x.usesMemory || y.usesMemory

end Expr

namespace RealExpr

def usesMemory : RealExpr → Bool
  | .const _ => false
  | .ofSigned x => x.usesMemory
  | .ofUnsigned x => x.usesMemory
  | .load _ => true
  | .binary _ x y => x.usesMemory || y.usesMemory

end RealExpr

namespace Action

def usesMemory : Action → Bool
  | .store _ _ => true
  | .store8 _ _ => true
  | .storeReal _ _ => true
  | .fill _ _ _ => true
  | .copy _ _ _ => true
  | .set _ x => x.usesMemory
  | .drop x => x.usesMemory
  | .fault a b c d e =>
      a.usesMemory || b.usesMemory || c.usesMemory || d.usesMemory || e.usesMemory
  | .unreachable => false

end Action

mutual

def Stmt.usesMemory : Stmt → Bool
  | .act a => a.usesMemory
  | .call _ => false
  | .branch x yes no => x.usesMemory || bodyUsesMemory yes || bodyUsesMemory no
  | .loop x body => x.usesMemory || bodyUsesMemory body
  | .leave => false

def bodyUsesMemory : List Stmt → Bool
  | [] => false
  | s :: rest => s.usesMemory || bodyUsesMemory rest

end

end ProgramHost.Program
