/-! # Swift types

Types as they stand in the attributes of a dump. A tuple keeps no element labels.
-/

namespace SwiftToKotlin.Swift

inductive Ty
  | named (name : String) (generics : List Ty)
  | optional (wrapped : Ty)
  | implicitlyUnwrapped (wrapped : Ty)
  | array (element : Ty)
  | dictionary (key value : Ty)
  | tuple (elements : List Ty)
  | function (params : List Ty) (result : Ty) (throws : Bool)
  deriving BEq, Repr

namespace Ty

/-- The name of a named type, without its generic arguments. -/
def name? : Ty → Option String
  | named name _ => some name
  | _ => none

def isOptional : Ty → Bool
  | optional _ => true
  | implicitlyUnwrapped _ => true
  | _ => false

/-- The type below all optional marks. -/
def nonOptional : Ty → Ty
  | optional wrapped => wrapped.nonOptional
  | implicitlyUnwrapped wrapped => wrapped.nonOptional
  | ty => ty

theorem isOptional_nonOptional (ty : Ty) : ty.nonOptional.isOptional = false := by
  fun_induction nonOptional ty with
  | case1 _ ih => exact ih
  | case2 _ ih => exact ih
  | case3 ty h₁ h₂ => cases ty <;> simp_all [isOptional]

def isText (ty : Ty) : Bool :=
  ty.nonOptional.name? == some "String"

def isCollection (ty : Ty) : Bool :=
  match ty.nonOptional with
  | array _ => true
  | dictionary _ _ => true
  | named name _ => name == "Set"
  | _ => false

/-- A type under an optional mark; there a function type needs parentheses. -/
def markable (ty : Ty) (text : String) : String :=
  match ty with
  | function .. => s!"({text})"
  | _ => text

mutual

/-- The type in Swift's notation. -/
def display : Ty → String
  | named name [] => name
  | named name (first :: rest) => name ++ "<" ++ display first ++ displayRest rest ++ ">"
  | optional wrapped => markable wrapped (display wrapped) ++ "?"
  | implicitlyUnwrapped wrapped => markable wrapped (display wrapped) ++ "!"
  | array element => "[" ++ display element ++ "]"
  | dictionary key value => "[" ++ display key ++ ": " ++ display value ++ "]"
  | tuple elements => "(" ++ displayAll elements ++ ")"
  | function params result throws =>
    "(" ++ displayAll params ++ ")" ++ (if throws then " throws" else "") ++ " -> " ++ display result

def displayAll : List Ty → String
  | [] => ""
  | first :: rest => display first ++ displayRest rest

def displayRest : List Ty → String
  | [] => ""
  | next :: rest => ", " ++ display next ++ displayRest rest

end

end Ty

end SwiftToKotlin.Swift
