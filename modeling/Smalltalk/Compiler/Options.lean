/-!
# Compiler options
-/

namespace Smalltalk

/-- What a compilation can be asked for. -/
structure CompileOptions where
  /-- The name of the source file, as position marks record it. -/
  fileName : String := "<input>"
  /-- Whether code is marked with source positions. -/
  debugInfo : Bool := false
  /-- Whether names that are declared nowhere are errors. -/
  strictGlobals : Bool := false
  deriving DecidableEq, Inhabited

end Smalltalk
