import SwiftToKotlin.Lowering.State

/-! # What is known about expressions

The static type of an expression as far as the tree tells it, and the enum case that an expression
names.
-/

namespace SwiftToKotlin.Lowering

open Swift (Node Ty)

/-- The type of an expression, where it can be told. -/
def typeIn (types : DeclaredTypes) (locals : Locals) : Node → Option Ty
  | ⟨.reference name ty, _⟩ => ty.or (locals.typeOf? name)
  | ⟨.literal (.string _), _⟩ => some (.named "String" [])
  | ⟨.interpolated _, _⟩ => some (.named "String" [])
  | ⟨.literal (.integer _), _⟩ => some (.named "Int" [])
  | ⟨.literal (.float _), _⟩ => some (.named "Double" [])
  | ⟨.literal (.boolean _), _⟩ => some (.named "Bool" [])
  | ⟨.arrayLiteral _, _⟩ => some (.array (.named "Any" []))
  | ⟨.dictionaryLiteral _, _⟩ => some (.dictionary (.named "AnyHashable" []) (.named "Any" []))
  | ⟨.wrapped .optionalTry _, _⟩ => none
  | ⟨.wrapped _ inner, _⟩ => typeIn types locals inner
  | ⟨.call ⟨.reference name _, _⟩ _, _⟩ =>
    if types.isConstructible name then some (.named name []) else none
  | ⟨.cast _ _ ty, _⟩ => some ty
  | _ => none

def typeOf (node : Node) : Lower (Option Ty) := do
  return typeIn (← types) (← locals) node

/-- The declared enum that a type refers to. -/
def enumNamed? (types : DeclaredTypes) (ty : Ty) : Option String :=
  (ty.nonOptional.name?.map types.resolve).filter fun name => (types.enum? name).isSome

/-- The declared enum that the value of an expression belongs to. -/
def enumOf (node : Node) : Lower (Option String) := do
  return (← typeOf node).bind (enumNamed? (← types))

/-- The enum that a bare case refers to: that of its type, else the expected one, else the one it
stands in, else the only one with such a case. -/
def implicitEnum? (types : DeclaredTypes) (around : Surroundings) (case : String)
    (ty : Option Ty) : Option String :=
  let having (enum : Option String) := enum.filter (types.hasCase · case)
  (ty.bind (enumNamed? types)).or
    ((having around.expectedEnum).or
      ((having around.scope.enclosing?).or (types.enumForCase case)))

/-- The enum and the case that an expression names, or that a call constructs. -/
def casePattern? (types : DeclaredTypes) (around : Surroundings) : Node → Option (String × String)
  | ⟨.implicitMember name ty, _⟩ => (implicitEnum? types around name ty).map (·, name)
  | ⟨.member ⟨.reference owner _, _⟩ name, _⟩ =>
    if types.hasCase (types.resolve owner) name then some (types.resolve owner, name) else none
  | ⟨.call callee _, _⟩ => casePattern? types around callee
  | _ => none

def casePattern (node : Node) : Lower (Option (String × String)) := do
  return casePattern? (← types) (← surroundings) node

/-- The receiver of a member, and whether it is reached through an optional. -/
def chainTarget (base : Node) : Node × Bool :=
  match base.construct with
  | .wrapped .bindOptional inner => (inner, true)
  | _ => (base, false)

end SwiftToKotlin.Lowering
