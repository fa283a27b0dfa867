/-! # Kotlin types -/

namespace SwiftToKotlin.Kotlin

inductive Ty
  | named (name : String) (args : List Ty)
  | nullable (inner : Ty)
  | function (params : List Ty) (result : Ty)
  deriving BEq, Repr

namespace Ty

/-- The type of the values of `ty` and of `null`. -/
def orNull : Ty → Ty
  | nullable inner => nullable inner
  | ty => nullable ty

/-- A type under a question mark; there a function type needs parentheses. -/
def markable (ty : Ty) (text : String) : String :=
  match ty with
  | function .. => s!"({text})"
  | _ => text

mutual

/-- The type in Kotlin's notation. -/
def display : Ty → String
  | named name [] => name
  | named name (first :: rest) => name ++ "<" ++ display first ++ displayRest rest ++ ">"
  | nullable inner => markable inner (display inner) ++ "?"
  | function params result => "(" ++ displayAll params ++ ") -> " ++ display result

def displayAll : List Ty → String
  | [] => ""
  | first :: rest => display first ++ displayRest rest

def displayRest : List Ty → String
  | [] => ""
  | next :: rest => ", " ++ display next ++ displayRest rest

end

end Ty

end SwiftToKotlin.Kotlin
