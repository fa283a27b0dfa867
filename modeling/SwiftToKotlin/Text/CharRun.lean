/-! # Runs of characters

The classes of the Unicode standard, in its version 17, are stored as lists that have the lengths of
gaps and runs in turn.
-/

namespace SwiftToKotlin.Text

/-- Whether the code point lies in a run. -/
def liesInRun : List Nat → Nat → Bool
  | gap :: run :: rest, code =>
    gap ≤ code && (code < gap + run || liesInRun rest (code - (gap + run)))
  | _, _ => false

/-- Whether the code point lies in a run at an even distance from its beginning. -/
def alternates : List Nat → Nat → Bool
  | gap :: run :: rest, code =>
    gap ≤ code &&
      if code < gap + run then (code - gap) % 2 == 0 else alternates rest (code - (gap + run))
  | _, _ => false

end SwiftToKotlin.Text
