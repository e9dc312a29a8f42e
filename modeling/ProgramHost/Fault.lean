import ProgramHost.Numeral.Radix
/-!
# Faults

A running program reports a fault by a code. Each known code has a meaning and a
hint; any other code is unknown, and is kept.
-/

namespace ProgramHost

/-- A fault that a program can report. Its code decides which one it is, and a code without a
meaning is kept, so that no code is lost. -/
inductive Fault where
  | general
  | outOfMemory
  | type
  | unaryOperand
  | binaryOperand
  | notCallable
  | nonBooleanCondition
  | unknown (code : UInt32)
  deriving DecidableEq, Repr

namespace Fault

def ofCode (code : UInt32) : Fault :=
  if code = 0x0 then .general
  else if code = 0x1 then .outOfMemory
  else if code = 0x10 then .type
  else if code = 0x12 then .unaryOperand
  else if code = 0x13 then .binaryOperand
  else if code = 0x16 then .notCallable
  else if code = 0x17 then .nonBooleanCondition
  else .unknown code

def code : Fault → UInt32
  | .general => 0x0
  | .outOfMemory => 0x1
  | .type => 0x10
  | .unaryOperand => 0x12
  | .binaryOperand => 0x13
  | .notCallable => 0x16
  | .nonBooleanCondition => 0x17
  | .unknown code => code

def explain : Fault → String
  | .general => "General runtime error"
  | .outOfMemory => "Out of memory"
  | .type => "General runtime type error"
  | .unaryOperand => "Unary operator given wrong argument type"
  | .binaryOperand => "Binary operator given wrong argument type"
  | .notCallable => "Call performed on a non-callable value"
  | .nonBooleanCondition => "Conditional given a non-boolean condition"
  | .unknown _ => "Unknown runtime error"

def elaborate : Fault → String
  | .general => ""
  | .outOfMemory =>
      "The program exhausted its heap. Recompiling with a larger heap may let it finish."
  | .type => "A value had a type the operation does not accept."
  | .unaryOperand =>
      "The operand of a unary operator had a type the operator does not accept."
  | .binaryOperand =>
      "An operand of a binary operator had a type the operator does not accept."
  | .notCallable => "Only functions can be called."
  | .nonBooleanCondition =>
      "The condition of an if or while must evaluate to a boolean."
  | .unknown _ => "This is likely a bug in the compiler."

def name : Fault → String
  | .general => "General"
  | .outOfMemory => "OutOfMemory"
  | .type => "Type"
  | .unaryOperand => "UnaryOperand"
  | .binaryOperand => "BinaryOperand"
  | .notCallable => "NotCallable"
  | .nonBooleanCondition => "NonBooleanCondition"
  | .unknown code => "Unknown(" ++ Numeral.Radix.decimalString code.toNat ++ ")"

/-- The faults that have a code of their own. -/
def named : List Fault :=
  [.general, .outOfMemory, .type, .unaryOperand, .binaryOperand, .notCallable,
    .nonBooleanCondition]

theorem ofCode_code {f : Fault} (h : f ∈ named) : ofCode f.code = f := by
  revert f
  decide

theorem ofCode_eq_unknown {code : UInt32} (h : ∀ f ∈ named, f.code ≠ code) :
    ofCode code = .unknown code := by
  simp only [named, List.forall_mem_cons, Fault.code] at h
  obtain ⟨h₀, h₁, h₂, h₃, h₄, h₅, h₆, -⟩ := h
  unfold ofCode
  rw [if_neg h₀.symm, if_neg h₁.symm, if_neg h₂.symm, if_neg h₃.symm, if_neg h₄.symm,
    if_neg h₅.symm, if_neg h₆.symm]

/-- The table of the codes: a fault with a code of its own is what that code gives, and a
code that none of them has gives an unknown fault that keeps it. -/
theorem ofCode_eq_iff {code : UInt32} {f : Fault} :
    ofCode code = f ↔ f.code = code ∧ (f ∈ named ∨ ∀ g ∈ named, g.code ≠ code) := by
  constructor
  · rintro rfl
    by_cases h : ∃ f ∈ named, f.code = code
    · obtain ⟨f, hf, rfl⟩ := h
      rw [ofCode_code hf]
      exact ⟨rfl, .inl hf⟩
    · have hother : ∀ f ∈ named, f.code ≠ code := fun f hf heq => h ⟨f, hf, heq⟩
      rw [ofCode_eq_unknown hother]
      exact ⟨rfl, .inr hother⟩
  · rintro ⟨rfl, hf | hother⟩
    · exact ofCode_code hf
    · rw [ofCode_eq_unknown hother]
      cases f with
      | unknown => rfl
      | _ => exact absurd rfl (hother _ (by decide))

end Fault

end ProgramHost
