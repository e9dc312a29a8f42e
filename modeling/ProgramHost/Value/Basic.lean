/-!
# Values

A value is what a program leaves behind for its host. Bad tags and reads past
the end of memory are values too, so that looking at a memory never fails.
-/

namespace ProgramHost

/-- What a program left behind. A number is kept as its bit pattern, and a read that was not
inside and a tag without a meaning are values as well, so reading never fails. -/
inductive Value where
  | unassigned
  | undefined
  | number (bits : UInt64)
  | boolean (b : Bool)
  | text (s : String)
  | function
  | invalidTag (tag : UInt32)
  | outOfBounds (offset len : Nat)
  deriving DecidableEq, Repr

end ProgramHost
