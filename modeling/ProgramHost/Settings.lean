/-!
# Settings

The names by which a program and its host find each other, and the options that
are handed to the compiler as they are.
-/

namespace ProgramHost

/-- The names of the binary interface and the options of the compiler. The options go to the
compiler alone, and a run looks at nothing but the names. -/
structure Settings where
  importSpace : String := "env"
  faultImport : String := "fault"
  entryPoint : String := "main"
  memoryExport : String := "memory"
  compileOptions : String := ""
  deriving DecidableEq, Repr

end ProgramHost
