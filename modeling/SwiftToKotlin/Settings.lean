/-! # Settings -/

namespace SwiftToKotlin

/-- The blanks per level of nesting, the Swift modules whose imports have no counterpart, and the
greatest width of drawn trees. -/
structure Settings where
  indentWidth : Nat := 4
  droppedImports : List String := ["Foundation", "Swift", "UIKit"]
  horizontalLimit : Nat := 100
  deriving DecidableEq

namespace Settings

/-- The width within which trees are drawn; zero stands for no limit. -/
def limit (settings : Settings) : Option Nat :=
  if settings.horizontalLimit > 0 then some settings.horizontalLimit else none

end Settings

end SwiftToKotlin
