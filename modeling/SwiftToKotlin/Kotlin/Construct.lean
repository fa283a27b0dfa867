import SwiftToKotlin.Kotlin.Operator
import SwiftToKotlin.Kotlin.Ty
import SwiftToKotlin.SourceRange

/-! # Kotlin constructs

One layer of a Kotlin program: a construct over whatever stands for its parts. The layers follow
Kotlin's surface closely, so that writing one down is a matter of layout and parentheses alone.
-/

namespace SwiftToKotlin.Kotlin

inductive Modifier
  | privateMember
  | abstractMember
  | openMember
  | overrideMember
  deriving DecidableEq

def Modifier.keyword : Modifier → String
  | privateMember => "private"
  | abstractMember => "abstract"
  | openMember => "open"
  | overrideMember => "override"

inductive Binding
  | val
  | var
  deriving DecidableEq

def Binding.keyword : Binding → String
  | val => "val"
  | var => "var"

/-- A parameter. In a primary constructor a binding makes it a property. -/
structure Param (α : Type) where
  name : String
  ty : Ty
  defaultValue : Option α := none
  binding : Option Binding := none

/-- A function. The receiver is the type that it extends; an abstract member has no body. -/
structure FunctionDef (α : Type) where
  name : String
  receiver : Option Ty
  params : List (Param α)
  returnType : Option Ty
  body : Option (List α)
  modifiers : List Modifier

structure PropertyDef (α : Type) where
  name : String
  binding : Binding
  ty : Option Ty := none
  receiver : Option Ty := none
  init : Option α := none
  getter : Option (List α) := none
  setter : Option (List α) := none
  modifiers : List Modifier := []

inductive ClassKind
  | plain
  | data
  | enumeration
  | sealed
  | interface
  | object
  deriving DecidableEq

def ClassKind.keyword : ClassKind → String
  | plain => "class"
  | data => "data class"
  | enumeration => "enum class"
  | sealed => "sealed class"
  | interface => "interface"
  | object => "object"

/-- A supertype, with a call of its constructor where it is a class. -/
structure Supertype where
  name : String
  constructorCall : Bool
  deriving DecidableEq

structure EnumEntry (α : Type) where
  name : String
  args : List α

/-- A class-like declaration with the parameters of its primary constructor. -/
structure ClassDef (α : Type) where
  name : String
  kind : ClassKind
  params : List (Param α) := []
  supertypes : List Supertype := []
  entries : List (EnumEntry α) := []
  members : List α := []
  modifiers : List Modifier := []

inductive WhenCondition (α : Type)
  | value (value : α)
  | is (ty : Ty)

/-- The else branch has no conditions. -/
structure WhenBranch (α : Type) where
  conditions : List (WhenCondition α)
  body : List α

structure CatchBlock (α : Type) where
  name : String
  ty : Ty
  body : List α

/-- Number literals keep their text. -/
inductive Literal
  | int (text : String)
  | double (text : String)
  | bool (value : Bool)
  | string (text : String)
  | null
  deriving DecidableEq

inductive TemplatePart (α : Type)
  | text (text : String)
  | expr (value : α)

structure Argument (α : Type) where
  name : Option String
  value : α

inductive Construct (α : Type)
  | file (items : List α)
  | comment (text : String)
  | importModule (name : String)
  | function (decl : FunctionDef α)
  | property (decl : PropertyDef α)
  | classDef (decl : ClassDef α)
  | secondaryConstructor (params : List (Param α)) (body : List α)
  | companionObject (members : List α)
  | typeAlias (name : String) (ty : Ty)
  | returnStmt (value : Option α)
  | ifStmt (condition : α) (thenBranch : List α) (elseBranch : Option (List α))
  | whileStmt (condition : α) (body : List α)
  | doWhile (body : List α) (condition : α)
  | forStmt (binder : String) (iterable : α) (body : List α)
  | whenStmt (subject : Option α) (branches : List (WhenBranch α))
  | breakStmt
  | continueStmt
  | throwStmt (value : α)
  | tryCatch (body : List α) (catches : List (CatchBlock α))
  | assign (op : AssignOp) (target value : α)
  | literal (value : Literal)
  | template (parts : List (TemplatePart α))
  | reference (name : String)
  | binary (op : BinaryOp) (lhs rhs : α)
  | unary (op : UnaryOp) (operand : α)
  | notNullAssert (value : α)
  | call (callee : α) (args : List (Argument α)) (trailingLambda : Option α)
  | member (base : α) (name : String) (safe : Bool)
  | index (base index : α)
  | lambda (params : List String) (body : List α)
  | ifExpr (condition thenValue elseValue : α)
  | cast (kind : CastKind) (value : α) (ty : Ty)

variable {α β : Type}

/-! ## The same layer over other parts -/

def Param.map (f : α → β) (param : Param α) : Param β :=
  { param with defaultValue := param.defaultValue.map f }

def FunctionDef.map (f : α → β) (decl : FunctionDef α) : FunctionDef β :=
  { decl with params := decl.params.map (Param.map f), body := decl.body.map (List.map f) }

def PropertyDef.map (f : α → β) (decl : PropertyDef α) : PropertyDef β :=
  { decl with
    init := decl.init.map f
    getter := decl.getter.map (List.map f)
    setter := decl.setter.map (List.map f) }

def EnumEntry.map (f : α → β) (entry : EnumEntry α) : EnumEntry β :=
  { entry with args := entry.args.map f }

def ClassDef.map (f : α → β) (decl : ClassDef α) : ClassDef β :=
  { decl with
    params := decl.params.map (Param.map f)
    entries := decl.entries.map (EnumEntry.map f)
    members := decl.members.map f }

def WhenCondition.map (f : α → β) : WhenCondition α → WhenCondition β
  | value a => value (f a)
  | is ty => is ty

def WhenBranch.map (f : α → β) (branch : WhenBranch α) : WhenBranch β :=
  ⟨branch.conditions.map (WhenCondition.map f), branch.body.map f⟩

def CatchBlock.map (f : α → β) (block : CatchBlock α) : CatchBlock β :=
  { block with body := block.body.map f }

def TemplatePart.map (f : α → β) : TemplatePart α → TemplatePart β
  | text t => text t
  | expr a => expr (f a)

def Argument.map (f : α → β) (argument : Argument α) : Argument β :=
  { argument with value := f argument.value }

def Construct.map (f : α → β) : Construct α → Construct β
  | file items => file (items.map f)
  | comment text => comment text
  | importModule name => importModule name
  | function decl => function (decl.map f)
  | property decl => property (decl.map f)
  | classDef decl => classDef (decl.map f)
  | secondaryConstructor params body =>
    secondaryConstructor (params.map (Param.map f)) (body.map f)
  | companionObject members => companionObject (members.map f)
  | typeAlias name ty => typeAlias name ty
  | returnStmt value => returnStmt (value.map f)
  | ifStmt condition thenBranch elseBranch =>
    ifStmt (f condition) (thenBranch.map f) (elseBranch.map (List.map f))
  | whileStmt condition body => whileStmt (f condition) (body.map f)
  | doWhile body condition => doWhile (body.map f) (f condition)
  | forStmt binder iterable body => forStmt binder (f iterable) (body.map f)
  | whenStmt subject branches => whenStmt (subject.map f) (branches.map (WhenBranch.map f))
  | breakStmt => breakStmt
  | continueStmt => continueStmt
  | throwStmt value => throwStmt (f value)
  | tryCatch body catches => tryCatch (body.map f) (catches.map (CatchBlock.map f))
  | assign op target value => assign op (f target) (f value)
  | literal value => literal value
  | template parts => template (parts.map (TemplatePart.map f))
  | reference name => reference name
  | binary op lhs rhs => binary op (f lhs) (f rhs)
  | unary op operand => unary op (f operand)
  | notNullAssert value => notNullAssert (f value)
  | call callee args trailingLambda =>
    call (f callee) (args.map (Argument.map f)) (trailingLambda.map f)
  | member base name safe => member (f base) name safe
  | index base position => index (f base) (f position)
  | lambda params body => lambda params (body.map f)
  | ifExpr condition thenValue elseValue =>
    ifExpr (f condition) (f thenValue) (f elseValue)
  | cast kind value ty => cast kind (f value) ty

/-! ## Kinds of constructs -/

/-- Whether the construct yields a value and may be an operand. -/
def Construct.isExpression : Construct α → Bool
  | literal _ | template _ | reference _ | binary .. | unary .. | notNullAssert _ | call .. | member ..
  | index .. | lambda .. | ifExpr .. | cast .. => true
  | _ => false

/-- Declarations that are set apart from their neighbours by a blank line. -/
def Construct.isDeclaration : Construct α → Bool
  | classDef _ | function _ | secondaryConstructor .. | companionObject _ => true
  | _ => false

def Construct.label : Construct α → String
  | file _ => "File"
  | comment _ => "Comment"
  | importModule _ => "Import"
  | function _ => "Function"
  | property _ => "Property"
  | classDef _ => "Class"
  | secondaryConstructor _ _ => "Constructor"
  | companionObject _ => "Companion Object"
  | typeAlias _ _ => "Type Alias"
  | returnStmt _ => "Return"
  | ifStmt _ _ _ => "If"
  | whileStmt _ _ => "While"
  | doWhile _ _ => "Do While"
  | forStmt _ _ _ => "For"
  | whenStmt _ _ => "When"
  | breakStmt => "Break"
  | continueStmt => "Continue"
  | throwStmt _ => "Throw"
  | tryCatch _ _ => "Try"
  | assign _ _ _ => "Assign"
  | literal _ => "Literal"
  | template _ => "Template"
  | reference _ => "Name"
  | binary _ _ _ => "Binary"
  | unary _ _ => "Unary"
  | notNullAssert _ => "Not Null Assert"
  | call _ _ _ => "Call"
  | member _ _ _ => "Member"
  | index _ _ => "Index"
  | lambda _ _ => "Lambda"
  | ifExpr _ _ _ => "If Expression"
  | cast _ _ _ => "Cast"

end SwiftToKotlin.Kotlin
