import SwiftToKotlin.Lowering.Inference

/-! # Lowering of parts

How a construct is lowered refers to the lowering of its parts, which is passed around as a value:
what it does to a statement and what it does to a value.
-/

namespace SwiftToKotlin.Lowering

open Swift (Node)

/-- The lowering of the parts of a construct. A statement may become several, or none. -/
structure Descent where
  statement : Node → Lower (List Kotlin.Node)
  value : Node → Lower Kotlin.Node

namespace Descent

/-- Statements one after the other, in the current block. -/
def sequence (descent : Descent) (nodes : List Node) : Lower (List Kotlin.Node) := do
  return (← nodes.mapM descent.statement).flatten

/-- Statements in a block of their own. -/
def statements (descent : Descent) (nodes : List Node) : Lower (List Kotlin.Node) :=
  inBlock (descent.sequence nodes)

/-! ## Values that are kept -/

/-- Whether an expression yields a value that lives on elsewhere. -/
def isPlace (node : Node) : Bool :=
  match node.construct with
  | .reference .. | .member .. | .subscript .. => true
  | _ => false

/-- The declared struct that the value of a place belongs to. -/
def placedStruct (node : Node) : Lower (Option (String × StructForm)) := do
  if !isPlace node then return none
  let types ← types
  return (← typeOf node).bind fun ty => ty.name?.bind fun name =>
    (types.struct? (types.resolve name)).map fun decl => (types.resolve name, structForm decl)

/-- A value that is stored or passed on. Swift copies structs then; a data class is copied
explicitly, and another class is shared, which is worth a warning. -/
def kept (descent : Descent) (node : Node) : Lower Kotlin.Node := do
  let lowered ← descent.value node
  match ← placedStruct node with
  | some (_, .dataClass) =>
    return .call (.member lowered "copy" lowered.range) [] lowered.range
  | some (name, .classWithEquality) =>
    warn (.sharedStruct name) node.range
    return lowered
  | none => return lowered

end Descent

end SwiftToKotlin.Lowering
