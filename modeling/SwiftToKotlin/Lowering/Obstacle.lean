import SwiftToKotlin.Lowering.TypeMap

/-! # What Kotlin cannot express

An obstacle is a construct without any counterpart; a mismatch is a difference in behaviour that
the counterpart brings with it.
-/

namespace SwiftToKotlin.Lowering

inductive Obstacle
  | caseOutsideEnum (name : String)
  | breakInCase
  | deferStatement
  | returnInClosure
  | initializerInExtension
  | storedPropertyInExtension (name : String)
  | assignmentAsValue
  | compoundAssignmentAsValue (symbol : String)
  | operator (symbol : String)
  | prefixOperator (symbol : String)
  | tupleOf (size : Nat)
  | implicitMember (name : String)
  | statementAsValue (label : String)
  | ty (ty : Swift.Ty) (cause : UnmappedTuple)

namespace Obstacle

/-- What has no counterpart. -/
def construct : Obstacle → String
  | caseOutsideEnum name => s!"enum case `{name}`"
  | breakInCase => "`break` before the end of a switch case"
  | deferStatement => "defer"
  | returnInClosure => "early return from a closure"
  | initializerInExtension => "initializer"
  | storedPropertyInExtension name => s!"stored property `{name}` in an extension"
  | assignmentAsValue => "assignment used as a value"
  | compoundAssignmentAsValue symbol => s!"`{symbol}` used as a value"
  | operator symbol => s!"operator `{symbol}`"
  | prefixOperator symbol => s!"prefix operator `{symbol}`"
  | tupleOf size => s!"tuple of {size} elements"
  | implicitMember name => s!"implicit member `.{name}`"
  | statementAsValue label => s!"{label.toLower} used as a value"
  | ty type _ => s!"type `{type.display}`"

/-- Why it has none. -/
def reason : Obstacle → String
  | caseOutsideEnum _ => "cases are only valid inside an enum"
  | breakInCase => "a Kotlin `when` branch cannot be left early"
  | deferStatement => "Kotlin has no scope-exit statement; use try/finally"
  | returnInClosure => "a bare `return` in a Kotlin lambda returns from the enclosing function"
  | initializerInExtension => "Kotlin constructors can only be declared inside the class body"
  | storedPropertyInExtension _ => "Kotlin extension properties cannot have backing fields"
  | assignmentAsValue => "Kotlin assignments are not expressions"
  | compoundAssignmentAsValue _ => "Kotlin assignments are not expressions"
  | operator _ => "no matching Kotlin operator"
  | prefixOperator _ => "no matching Kotlin operator"
  | tupleOf _ => "Kotlin only has Pair and Triple"
  | implicitMember _ => "the type it belongs to cannot be determined"
  | statementAsValue _ => "only expressions can appear here"
  | ty _ cause => cause.reason

def message (obstacle : Obstacle) : String :=
  s!"no Kotlin equivalent for {obstacle.construct}: {obstacle.reason}"

end Obstacle

inductive Mismatch
  | sharedStruct (name : String)
  | structAsClass (name : String)
  | protocolExtension (name : String)
  | droppedPrintArgument (label : String)
  deriving DecidableEq

def Mismatch.message : Mismatch → String
  | sharedStruct name => s!"value of struct `{name}` is shared by reference instead of copied"
  | structAsClass name =>
    s!"struct `{name}` becomes a class: copies share state instead of being independent values"
  | protocolExtension name =>
    s!"extension of protocol `{name}` becomes extension functions on the interface; " ++
      "conforming types cannot override them"
  | droppedPrintArgument label => s!"`print` argument `{label}` is dropped"

end SwiftToKotlin.Lowering
