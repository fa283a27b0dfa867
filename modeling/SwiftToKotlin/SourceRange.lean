/-! # Places in a source file -/

namespace SwiftToKotlin

/-- A span of a Swift file. Lines and columns count from one. -/
structure SourceRange where
  file : String
  startLine : Nat
  startColumn : Nat
  endLine : Nat
  endColumn : Nat
  deriving DecidableEq

namespace SourceRange

/-- The place where the span begins. -/
def display (range : SourceRange) : String :=
  s!"{range.file}:{range.startLine}:{range.startColumn}"

end SourceRange

end SwiftToKotlin
