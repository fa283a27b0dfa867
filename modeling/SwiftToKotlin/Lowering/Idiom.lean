import SwiftToKotlin.Lowering.DeclaredTypes

/-! # Choices between Kotlin idioms

Some Swift constructs have more than one rendering in Kotlin. Each choice depends on the construct
alone, and the first rendering that fits is taken.
-/

namespace SwiftToKotlin.Lowering

open Swift (Node TypeDecl)

/-! ## Optional bindings -/

/-- `if let x = e`: a smart cast when `e` is `x` itself, `e?.let` when nothing leaves the branch
early and there is no other branch, and a `when` on a new value otherwise. -/
inductive BindingStyle
  | smartCast
  | safeLet
  | scopedVal
  deriving DecidableEq

/-- Whether a value is nothing but a reference to the name. -/
def rebinds (name : String) (value : Node) : Bool :=
  match value.construct with
  | .reference target _ => target == name
  | _ => false

/-- Whether a statement may leave the statements around it. Closures, functions and the conditions
of statements are not searched. -/
def hasJump (node : Node) : Bool :=
  node.fold fun construct _ =>
    match construct with
    | .returnStmt _ | .breakStmt | .continueStmt => true
    | .block body | .deferStmt body => body.any id
    | .ifStmt _ thenBranch elseBranch => thenBranch.any id || elseBranch.getD false
    | .guardStmt _ elseBranch => elseBranch.any id
    | .whileStmt _ body | .repeatWhile body _ | .forEach _ _ body => body.any id
    | .switchStmt _ cases => cases.any (·.body.any id)
    | .doCatch body catches => body.any id || catches.any (·.body.any id)
    | _ => false

def bindingStyle (name : String) (value : Node) (thenBranch : List Node) (hasElse : Bool) :
    BindingStyle :=
  if rebinds name value then .smartCast
  else if !hasElse && !thenBranch.any hasJump then .safeLet
  else .scopedVal

/-! ## Structs and enums -/

inductive StructForm
  | dataClass
  | classWithEquality
  deriving DecidableEq

def isLiteral (node : Node) : Bool :=
  match node.construct with
  | .literal .nil => false
  | .literal _ => true
  | _ => false

/-- A data class needs a constructor parameter for each stored property, with a type for each, and
leaves no room for further initializers. -/
def structForm (decl : TypeDecl Node) : StructForm :=
  let stored := DeclaredTypes.storedProperties decl
  if (DeclaredTypes.initializers decl).isEmpty && !stored.isEmpty &&
      stored.all (fun property => property.ty.isSome || property.init.any isLiteral) then .dataClass
  else .classWithEquality

inductive EnumForm
  | enumClass
  | sealedClass
  deriving DecidableEq

/-- An enumeration has no room for associated values. -/
def enumForm (decl : TypeDecl Node) : EnumForm :=
  if (DeclaredTypes.casesOf decl).all (·.params.isEmpty) then .enumClass else .sealedClass

end SwiftToKotlin.Lowering
