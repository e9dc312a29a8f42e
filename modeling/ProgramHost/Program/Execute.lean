import ProgramHost.Memory.Paged
import ProgramHost.Program.Code
/-!
# Execution

Code runs on a frame: the slots of the function at hand and the memory of the
module. A list of statements is followed to one of four completions. It falls
through to its end, it leaves its function, it is halted by a fault or a trap,
or it is unfinished because the fuel is spent. A halted completion carries
nothing but its cause, so nothing after it can be observed.

The fuel bounds the length of an execution and the depth the number of calls
that are open at one time. Only the depth is part of the language: a call that
goes deeper exhausts the stack.
-/

namespace ProgramHost.Program

/-- The words that a program gives along with a fault, as it gave them. Nothing is made of the
code here, and only the line and the column of the place are ever shown. -/
structure FaultCall where
  code : UInt32
  detail : UInt32
  file : UInt32
  line : UInt32
  column : UInt32
  deriving DecidableEq, Repr

inductive Halt where
  | fault (c : FaultCall)
  | trap (t : Trap)
  deriving DecidableEq, Repr

abbrev Slots : Type := Vector UInt32 4

def Slots.zero : Slots := Vector.replicate 4 0

/-- What a statement works on: the slots of its own function, and the memory of the module, which
all functions share. A call starts with fresh slots and leaves nothing but the memory. -/
structure Frame where
  slots : Slots
  memory : Memory

/-- How a list of statements ends. A frame is handed on only if the statements fell through or
left their function, so whatever was done before a fault or a trap is lost with it. -/
inductive Completion where
  | next (f : Frame)
  | left (f : Frame)
  | halted (h : Halt)
  | unfinished

/-- The result of an access, which traps if it is refused. -/
def access {α : Type} : Option α → Except Trap α
  | some a => .ok a
  | none => .error .outOfBounds

/-- The number of pages before a growth and the memory after it. A refused
growth gives the greatest word. -/
def growth (m : Memory) (n : UInt32) : UInt32 × Memory :=
  match m.grow? n.toNat with
  | some m' => (UInt32.ofNat m.pages, m')
  | none => (0xFFFFFFFF, m)

/-- The word of an expression and the memory after it. Operands are evaluated
from left to right. -/
def Expr.eval (s : Slots) : Expr → Memory → Except Trap (UInt32 × Memory)
  | .const x, m => .ok (x, m)
  | .slot i, m => .ok (s[i], m)
  | .load a, m => do
      let (p, m) ← a.eval s m
      return (UInt32.ofNat (← access (m.load? p.toNat 4)), m)
  | .load8 a, m => do
      let (p, m) ← a.eval s m
      return (UInt32.ofNat (← access (m.load? p.toNat 1)), m)
  | .size, m => .ok (UInt32.ofNat m.pages, m)
  | .grow n, m => do
      let (k, m) ← n.eval s m
      return growth m k
  | .binary op x y, m => do
      let (a, m) ← x.eval s m
      let (b, m) ← y.eval s m
      return (← op.apply a b, m)

def RealExpr.eval (s : Slots) : RealExpr → Memory → Except Trap (UInt64 × Memory)
  | .const x, m => .ok (x, m)
  | .ofSigned x, m => do
      let (a, m) ← x.eval s m
      return (realOfSigned a, m)
  | .ofUnsigned x, m => do
      let (a, m) ← x.eval s m
      return (realOfUnsigned a, m)
  | .load a, m => do
      let (p, m) ← a.eval s m
      return (UInt64.ofNat (← access (m.load? p.toNat 8)), m)
  | .binary op x y, m => do
      let (a, m) ← x.eval s m
      let (b, m) ← y.eval s m
      return (op.apply a b, m)

def Frame.word (f : Frame) (x : Expr) : Except Halt (UInt32 × Frame) :=
  match x.eval f.slots f.memory with
  | .ok (v, m) => .ok (v, { f with memory := m })
  | .error t => .error (.trap t)

def Frame.real (f : Frame) (x : RealExpr) : Except Halt (UInt64 × Frame) :=
  match x.eval f.slots f.memory with
  | .ok (v, m) => .ok (v, { f with memory := m })
  | .error t => .error (.trap t)

def Frame.put (f : Frame) (m : Option Memory) : Except Halt Frame :=
  match m with
  | some m => .ok { f with memory := m }
  | none => .error (.trap .outOfBounds)

def Action.run (f : Frame) : Action → Except Halt Frame
  | .store a x => do
      let (p, f) ← f.word a
      let (v, f) ← f.word x
      f.put (f.memory.store? p.toNat 4 v.toNat)
  | .store8 a x => do
      let (p, f) ← f.word a
      let (v, f) ← f.word x
      f.put (f.memory.store? p.toNat 1 v.toNat)
  | .storeReal a x => do
      let (p, f) ← f.word a
      let (v, f) ← f.real x
      f.put (f.memory.store? p.toNat 8 v.toNat)
  | .fill a b n => do
      let (p, f) ← f.word a
      let (v, f) ← f.word b
      let (k, f) ← f.word n
      f.put (f.memory.fill? p.toNat k.toNat (UInt8.ofNat v.toNat))
  | .copy a b n => do
      let (p, f) ← f.word a
      let (q, f) ← f.word b
      let (k, f) ← f.word n
      f.put (f.memory.copy? p.toNat q.toNat k.toNat)
  | .set i x => do
      let (v, f) ← f.word x
      return { f with slots := f.slots.set i v }
  | .drop x => do
      let (_, f) ← f.word x
      return f
  | .fault a b c d e => do
      let (code, f) ← f.word a
      let (detail, f) ← f.word b
      let (file, f) ← f.word c
      let (line, f) ← f.word d
      let (column, _) ← f.word e
      .error (.fault ⟨code, detail, file, line, column⟩)
  | .unreachable => .error (.trap .unreachable)

@[inline] def Completion.andThen (c : Completion) (k : Frame → Completion) : Completion :=
  match c with
  | .next f => k f
  | .left f => .left f
  | .halted h => .halted h
  | .unfinished => .unfinished

@[inline] def Completion.afterCall (c : Completion) (k : Memory → Completion) : Completion :=
  match c with
  | .next f => k f.memory
  | .left f => k f.memory
  | .halted h => .halted h
  | .unfinished => .unfinished

/-- Follows a list of statements in a module whose functions have the bodies
`code`. -/
def exec (code : Nat → List Stmt) : Nat → Nat → List Stmt → Frame → Completion
  | 0, _, _, _ => .unfinished
  | _ + 1, _, [], f => .next f
  | fuel + 1, depth, s :: rest, f =>
      match s with
      | .act a =>
          match a.run f with
          | .ok f => exec code fuel depth rest f
          | .error h => .halted h
      | .call i =>
          match depth with
          | 0 => .halted (.trap .stackExhausted)
          | below + 1 =>
              (exec code fuel below (code i) { f with slots := .zero }).afterCall
                fun m => exec code fuel depth rest { f with memory := m }
      | .branch x yes no =>
          match f.word x with
          | .ok (v, f) =>
              (exec code fuel depth (if v = 0 then no else yes) f).andThen
                (exec code fuel depth rest)
          | .error h => .halted h
      | .loop x body =>
          match f.word x with
          | .ok (v, f) =>
              if v = 0 then exec code fuel depth rest f
              else (exec code fuel depth body f).andThen (exec code fuel depth (s :: rest))
          | .error h => .halted h
      | .leave => .left f

end ProgramHost.Program
