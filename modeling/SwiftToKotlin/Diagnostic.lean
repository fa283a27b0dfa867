import SwiftToKotlin.Lowering.Obstacle
import SwiftToKotlin.SourceRange
import SwiftToKotlin.Swift.Flaw
import SwiftToKotlin.Tree

/-! # Diagnostics

What is worth telling about a source file, in the order in which it was found. A list of
diagnostics only ever grows at its end.
-/

namespace SwiftToKotlin

inductive Severity
  | warning
  | error
  deriving DecidableEq

def Severity.display : Severity → String
  | warning => "warning"
  | error => "error"

/-- What a diagnostic is about: a kind that is not in the catalogue, a node that cannot be read as
its kind, a construct that Kotlin lacks, or a counterpart that behaves differently. -/
inductive Cause
  | unrecognized (kind : String)
  | malformed (kind : String) (flaw : Swift.Flaw)
  | noEquivalent (obstacle : Lowering.Obstacle)
  | mismatch (difference : Lowering.Mismatch)

namespace Cause

def severity : Cause → Severity
  | unrecognized _ => .warning
  | malformed _ _ => .error
  | noEquivalent _ => .error
  | mismatch _ => .warning

/-- The name of the class of causes in reports. -/
def category : Cause → String
  | unrecognized _ => "unrecognized_construct"
  | malformed _ _ => "malformed_construct"
  | noEquivalent _ => "untranslatable_construct"
  | mismatch _ => "semantic_mismatch"

def message : Cause → String
  | unrecognized kind => s!"unrecognized construct `{kind}`"
  | malformed kind flaw => s!"malformed `{kind}`: {flaw.message}"
  | noEquivalent obstacle => obstacle.message
  | mismatch difference => difference.message

end Cause

structure Diagnostic where
  cause : Cause
  range : Option SourceRange

namespace Diagnostic

def severity (diagnostic : Diagnostic) : Severity :=
  diagnostic.cause.severity

def isError (diagnostic : Diagnostic) : Bool :=
  diagnostic.severity = .error

def message (diagnostic : Diagnostic) : String :=
  diagnostic.cause.message

/-- The diagnostic on one line, behind its place if it has one. -/
def display (diagnostic : Diagnostic) : String :=
  let text := s!"{diagnostic.severity.display}: {diagnostic.message}"
  match diagnostic.range with
  | some range => s!"{range.display}: {text}"
  | none => text

def hasErrors (diagnostics : List Diagnostic) : Bool :=
  diagnostics.any isError

def errorCount (diagnostics : List Diagnostic) : Nat :=
  diagnostics.countP isError

def warningCount (diagnostics : List Diagnostic) : Nat :=
  diagnostics.length - errorCount diagnostics

def outline (diagnostics : List Diagnostic) : Tree :=
  ⟨"Diagnostics", diagnostics.map fun diagnostic => some (.leaf diagnostic.display)⟩

end Diagnostic

end SwiftToKotlin
