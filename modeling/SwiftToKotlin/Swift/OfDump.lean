import SwiftToKotlin.Diagnostic
import SwiftToKotlin.Swift.Node
import SwiftToKotlin.Swift.Reading

/-! # From a dump to a Swift tree

A dump node becomes its construct with the parts read in turn. This never fails: a node that cannot
be read becomes a placeholder with one diagnostic, and nothing below it is looked at.
-/

namespace SwiftToKotlin.Swift

/-- Adds a diagnostic at the end. -/
def report (cause : Cause) (range : Option SourceRange) : StateM (List Diagnostic) Unit :=
  modify (· ++ [⟨cause, range⟩])

def invalidNode (raw : Dump.Node) (flaw : Flaw) : StateM (List Diagnostic) Node := do
  report (.malformed raw.kind flaw) raw.range
  return ⟨.invalid raw.kind flaw, raw.range⟩

namespace Node

/-- Reads a tree within a bounded number of layers. -/
def ofDumpWithin : Nat → Dump.Node → StateM (List Diagnostic) Node
  | 0, raw => invalidNode raw (.misplaced raw.kind)
  | layers + 1, raw =>
    match Construct.read raw with
    | .error flaw => invalidNode raw flaw
    | .ok construct => do
      if let .unknown kind _ := construct then report (.unrecognized kind) raw.range
      return ⟨← construct.mapM (ofDumpWithin layers), raw.range⟩

/-- Reads a tree. The value of a closure takes a layer more than in the dump, so that the bound is
twice the height. -/
def ofDump (raw : Dump.Node) : StateM (List Diagnostic) Node :=
  ofDumpWithin (2 * raw.height) raw

end Node

end SwiftToKotlin.Swift
