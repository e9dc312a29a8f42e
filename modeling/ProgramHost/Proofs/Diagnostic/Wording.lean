import ProgramHost.Diagnostic.Render
/-!
# The wording of diagnostics

What is said of a fault depends on its code alone, and `Fault.Worded` is the table: seven
codes have words of their own, and all the others share theirs. `Diagnostic.Prints` is the
layout of the printed form. It has an empty line, the header with what happened and an empty
line again; a hint and a place follow where there are any.
-/

namespace ProgramHost

/-- The words for a code: what happened, and a hint at the cause. The table is written out code by
code and does not go by way of the fault that a code stands for. -/
inductive Fault.Worded : UInt32 → String → String → Prop
  | general : Worded 0x0 "General runtime error" ""
  | outOfMemory : Worded 0x1 "Out of memory"
      "The program exhausted its heap. Recompiling with a larger heap may let it finish."
  | type : Worded 0x10 "General runtime type error"
      "A value had a type the operation does not accept."
  | unaryOperand : Worded 0x12 "Unary operator given wrong argument type"
      "The operand of a unary operator had a type the operator does not accept."
  | binaryOperand : Worded 0x13 "Binary operator given wrong argument type"
      "An operand of a binary operator had a type the operator does not accept."
  | notCallable : Worded 0x16 "Call performed on a non-callable value"
      "Only functions can be called."
  | nonBooleanCondition : Worded 0x17 "Conditional given a non-boolean condition"
      "The condition of an if or while must evaluate to a boolean."
  | unknown {code : UInt32} : code ∉ [0x0, 0x1, 0x10, 0x12, 0x13, 0x16, 0x17] →
      Worded code "Unknown runtime error" "This is likely a bug in the compiler."

theorem Fault.worded_ofCode (code : UInt32) :
    Worded code (ofCode code).explain (ofCode code).elaborate := by
  obtain ⟨hcode, hnamed | hother⟩ := ofCode_eq_iff.1 (rfl : ofCode code = ofCode code)
  · generalize ofCode code = f at hcode hnamed
    subst hcode
    simp only [named, List.mem_cons, List.not_mem_nil, or_false] at hnamed
    rcases hnamed with rfl | rfl | rfl | rfl | rfl | rfl | rfl
    · exact .general
    · exact .outOfMemory
    · exact .type
    · exact .unaryOperand
    · exact .binaryOperand
    · exact .notCallable
    · exact .nonBooleanCondition
  · rw [ofCode_eq_unknown hother]
    refine .unknown fun hmem => ?_
    have hcodes : named.map Fault.code = [0x0, 0x1, 0x10, 0x12, 0x13, 0x16, 0x17] := rfl
    rw [← hcodes] at hmem
    obtain ⟨f, hf, heq⟩ := List.mem_map.1 hmem
    exact hother f hf heq

/-- The table has one entry for each code, the one that the fault of the code is told by. -/
theorem Fault.worded_iff {code : UInt32} {explain elaborate : String} :
    Worded code explain elaborate ↔
      explain = (ofCode code).explain ∧ elaborate = (ofCode code).elaborate := by
  constructor
  · intro h
    cases h with
    | @unknown _ h =>
        have hother : ofCode code = .unknown code := by
          refine ofCode_eq_unknown fun f hf heq => h ?_
          rw [← heq]
          exact List.mem_map_of_mem (f := Fault.code) hf
        rw [hother]
        exact ⟨rfl, rfl⟩
    | _ => exact ⟨rfl, rfl⟩
  · rintro ⟨rfl, rfl⟩
    exact worded_ofCode code

inductive Severity.Headed : Bool → Severity → String → Prop
  | warning : Headed false .warning "• Warning:"
  | error : Headed false .error "• Error:"
  | colouredWarning : Headed true .warning "\x1b[1;33m• Warning:\x1b[0m"
  | colouredError : Headed true .error "\x1b[1;31m• Error:\x1b[0m"

inductive Diagnostic.Hinted : String → String → Prop
  | none : Hinted "" ""
  | some {hint : String} : hint ≠ "" → Hinted hint ("  " ++ hint ++ "\n")

/-- What is printed of a location: where it starts, unless it is unknown. -/
inductive Location.Placed : Location → String → Prop
  | unknown : Placed ⟨⟨0, 0⟩, ⟨0, 0⟩⟩ ""
  | known {l : Location} : l ≠ ⟨⟨0, 0⟩, ⟨0, 0⟩⟩ →
      Placed l ("  at " ++ Numeral.Radix.decimalString l.start.line.toNat ++ ":" ++
        Numeral.Radix.decimalString l.start.column.toNat ++ "\n\n")

/-- The text is the printed form of the diagnostic, with one part for each of its fields but the
kind, which is not shown. -/
inductive Diagnostic.Prints (colour : Bool) (d : Diagnostic) : String → Prop
  | intro {header hint place : String} : d.severity.Headed colour header →
      Hinted d.elaborate hint → d.location.Placed place →
      Prints colour d ("\n" ++ header ++ " " ++ d.explain ++ "\n\n" ++ hint ++ place)

theorem Severity.Headed.unique {colour : Bool} {s : Severity} {header header' : String}
    (h : s.Headed colour header) (h' : s.Headed colour header') : header = header' := by
  cases h <;> cases h' <;> rfl

theorem Location.Placed.unique {l : Location} {place place' : String} (h : l.Placed place)
    (h' : l.Placed place') : place = place' := by
  cases h with
  | unknown =>
      cases h' with
      | unknown => rfl
      | known hne => exact absurd rfl hne
  | known hne =>
      cases h' with
      | unknown => exact absurd rfl hne
      | known => rfl

namespace Diagnostic

theorem Hinted.unique {elaborate hint hint' : String} (h : Hinted elaborate hint)
    (h' : Hinted elaborate hint') : hint = hint' := by
  cases h with
  | none =>
      cases h' with
      | none => rfl
      | some hne => exact absurd rfl hne
  | some hne =>
      cases h' with
      | none => exact absurd rfl hne
      | some => rfl

variable {colour : Bool} {d : Diagnostic} {text : String}

theorem headed_header (colour : Bool) (d : Diagnostic) :
    d.severity.Headed colour (d.header colour) := by
  unfold header
  cases d.severity <;> cases colour
  · exact .warning
  · exact .colouredWarning
  · exact .error
  · exact .colouredError

theorem hinted_printed (hint : String) :
    Hinted hint (if hint = "" then "" else "  " ++ hint ++ "\n") := by
  split
  · next h =>
      subst h
      exact .none
  · next h => exact .some h

theorem placed_printed (l : Location) :
    l.Placed (if l = .unknown then "" else "  at " ++ l.display ++ "\n\n") := by
  split
  · next h =>
      subst h
      exact .unknown
  · next h =>
      rw [Location.display, ← String.append_assoc, ← String.append_assoc]
      exact .known h

theorem prints_printed (colour : Bool) (d : Diagnostic) : d.Prints colour (d.printed colour) :=
  .intro (headed_header colour d) (hinted_printed _) (placed_printed _)

/-- The layout leaves no choice, and what is printed for a diagnostic has it. -/
theorem prints_iff : d.Prints colour text ↔ text = d.printed colour := by
  constructor
  · rintro ⟨hheader, hhint, hplace⟩
    rw [hheader.unique (headed_header colour d), hhint.unique (hinted_printed _),
      hplace.unique (placed_printed _)]
    rfl
  · rintro rfl
    exact prints_printed colour d

/-- Whatever is left out, the header and the lines around it are printed. -/
theorem Prints.ne_empty (h : d.Prints colour text) : text ≠ "" := by
  cases h
  simp

end Diagnostic

end ProgramHost
