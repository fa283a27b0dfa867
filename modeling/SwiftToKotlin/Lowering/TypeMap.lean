import SwiftToKotlin.Swift.Ty
import SwiftToKotlin.Kotlin.Ty
import SwiftToKotlin.Text.Cut

/-! # Kotlin types for Swift types

Collections become Kotlin's mutable ones and both kinds of optionals become nullable types. Kotlin
has standard types for pairs and triples only, so every other tuple but the empty one is refused.
-/

namespace SwiftToKotlin.Lowering

/-- The size of a tuple that Kotlin has no type for. -/
structure UnmappedTuple where
  size : Nat
  deriving DecidableEq

def UnmappedTuple.reason (tuple : UnmappedTuple) : String :=
  s!"tuples of {tuple.size} elements have no standard Kotlin type"

def kotlinTypeName (name : String) : String :=
  match (Text.without "Swift." name).getD name with
  | "Int8" => "Byte"
  | "Int16" => "Short"
  | "Int32" => "Int"
  | "Int64" => "Long"
  | "UInt8" => "UByte"
  | "UInt16" => "UShort"
  | "UInt32" => "UInt"
  | "UInt64" => "ULong"
  | "Bool" => "Boolean"
  | "Character" => "Char"
  | "Void" => "Unit"
  | "AnyObject" => "Any"
  | "Set" => "MutableSet"
  | "Error" => "Exception"
  | other => other

mutual

def kotlinType : Swift.Ty → Except UnmappedTuple Kotlin.Ty
  | .named name generics => do return .named (kotlinTypeName name) (← kotlinTypes generics)
  | .optional wrapped => do return (← kotlinType wrapped).orNull
  | .implicitlyUnwrapped wrapped => do return (← kotlinType wrapped).orNull
  | .array element => do return .named "MutableList" [← kotlinType element]
  | .dictionary key value => do
    return .named "MutableMap" [← kotlinType key, ← kotlinType value]
  | .tuple elements =>
    match elements.length with
    | 0 => .ok (.named "Unit" [])
    | 2 => do return .named "Pair" (← kotlinTypes elements)
    | 3 => do return .named "Triple" (← kotlinTypes elements)
    | size => .error ⟨size⟩
  | .function params result _ => do
    return .function (← kotlinTypes params) (← kotlinType result)

def kotlinTypes : List Swift.Ty → Except UnmappedTuple (List Kotlin.Ty)
  | [] => .ok []
  | ty :: rest => do return (← kotlinType ty) :: (← kotlinTypes rest)

end

end SwiftToKotlin.Lowering
