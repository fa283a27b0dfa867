import SwiftToKotlin.Swift.Flaw
import SwiftToKotlin.SourceRange

/-! # Swift constructs

One layer of a Swift program: a construct over whatever stands for its parts. Over nodes it makes
up the syntax tree, and over nodes of a dump it is the result of reading one of them. Every
operation on a layer visits the parts in the same order, the order of the fields.
-/

namespace SwiftToKotlin.Swift

/-- A parameter of a function or of an enum case. It has no label where Swift writes `_`. -/
structure Param (α : Type) where
  label : Option String
  name : String
  ty : Ty
  defaultValue : Option α

/-- A function without a body is a requirement of a protocol. -/
structure FunctionDecl (α : Type) where
  name : String
  params : List (Param α)
  result : Option Ty
  body : Option (List α)
  isStatic : Bool
  isMutating : Bool
  throws : Bool
  isOverride : Bool

inductive AccessorKind
  | get
  | set
  deriving DecidableEq

structure Accessor (α : Type) where
  kind : AccessorKind
  body : Option (List α)

structure VariableDecl (α : Type) where
  name : String
  ty : Option Ty
  isLet : Bool
  isStatic : Bool
  init : Option α
  accessors : List (Accessor α)

/-- A property is stored unless it has accessors. -/
def VariableDecl.isStored {α : Type} (decl : VariableDecl α) : Bool :=
  decl.accessors.isEmpty

inductive TypeKind
  | structType
  | classType
  | protocolType
  | enumType
  deriving DecidableEq

structure TypeDecl (α : Type) where
  name : String
  inherits : List String
  members : List α

structure EnumCaseDecl (α : Type) where
  name : String
  params : List (Param α)
  rawValue : Option α

inductive Condition (α : Type)
  | expr (value : α)
  | binding (name : String) (value : α) (range : Option SourceRange)

/-- The default case has no patterns. -/
structure SwitchCase (α : Type) where
  patterns : List α
  body : List α
  range : Option SourceRange

structure CatchClause (α : Type) where
  name : Option String
  ty : Option Ty
  body : List α
  range : Option SourceRange

structure Argument (α : Type) where
  label : Option String
  value : α

/-- Number literals keep their text. -/
inductive Literal
  | integer (text : String)
  | float (text : String)
  | boolean (value : Bool)
  | string (text : String)
  | nil
  deriving DecidableEq

/-- Forms that stand around one expression. -/
inductive Wrapper
  | paren
  | forceUnwrap
  | bindOptional
  | optionalEvaluation
  | tryExpr
  | optionalTry
  deriving DecidableEq

/-- `as`, `as?`, `as!` and `is`. -/
inductive CastKind
  | coerce
  | conditional
  | forced
  | check
  deriving DecidableEq

inductive Construct (α : Type)
  | file (items : List α)
  | importModule (name : String)
  | function (decl : FunctionDecl α)
  | initializer (params : List (Param α)) (body : Option (List α))
  | variableDecl (decl : VariableDecl α)
  | typeDecl (kind : TypeKind) (decl : TypeDecl α)
  | enumCase (decl : EnumCaseDecl α)
  | extensionDecl (extended : String) (members : List α)
  | typeAlias (name : String) (ty : Ty)
  | block (items : List α)
  | returnStmt (value : Option α)
  | ifStmt (condition : Condition α) (thenBranch : List α) (elseBranch : Option α)
  | guardStmt (condition : Condition α) (elseBranch : List α)
  | whileStmt (condition : α) (body : List α)
  | repeatWhile (body : List α) (condition : α)
  | forEach (binder : String) (sequence : α) (body : List α)
  | switchStmt (subject : α) (cases : List (SwitchCase α))
  | breakStmt
  | continueStmt
  | throwStmt (value : α)
  | deferStmt (body : List α)
  | doCatch (body : List α) (catches : List (CatchClause α))
  | literal (value : Literal)
  | interpolated (segments : List α)
  | reference (name : String) (ty : Option Ty)
  | binary (operator : String) (lhs rhs : α)
  | prefixUnary (operator : String) (operand : α)
  | assign (target value : α)
  | call (callee : α) (arguments : List (Argument α))
  | member (base : α) (name : String)
  | implicitMember (name : String) (ty : Option Ty)
  | subscript (base index : α)
  | arrayLiteral (items : List α)
  | dictionaryLiteral (entries : List (α × α))
  | tuple (items : List α)
  | closure (params : List String) (body : List α)
  | ternary (condition thenValue elseValue : α)
  | wrapped (form : Wrapper) (inner : α)
  | cast (kind : CastKind) (value : α) (ty : Ty)
  | invalid (kind : String) (flaw : Flaw)
  | unknown (kind : String) (children : List α)

variable {α β : Type}

/-! ## The same layer over other parts -/

def Param.map (f : α → β) (param : Param α) : Param β :=
  { param with defaultValue := param.defaultValue.map f }

def FunctionDecl.map (f : α → β) (decl : FunctionDecl α) : FunctionDecl β :=
  { decl with params := decl.params.map (Param.map f), body := decl.body.map (List.map f) }

def Accessor.map (f : α → β) (accessor : Accessor α) : Accessor β :=
  { accessor with body := accessor.body.map (List.map f) }

def VariableDecl.map (f : α → β) (decl : VariableDecl α) : VariableDecl β :=
  { decl with init := decl.init.map f, accessors := decl.accessors.map (Accessor.map f) }

def TypeDecl.map (f : α → β) (decl : TypeDecl α) : TypeDecl β :=
  { decl with members := decl.members.map f }

def EnumCaseDecl.map (f : α → β) (decl : EnumCaseDecl α) : EnumCaseDecl β :=
  { decl with params := decl.params.map (Param.map f), rawValue := decl.rawValue.map f }

def Condition.map (f : α → β) : Condition α → Condition β
  | expr value => expr (f value)
  | binding name value range => binding name (f value) range

def SwitchCase.map (f : α → β) (case : SwitchCase α) : SwitchCase β :=
  { case with patterns := case.patterns.map f, body := case.body.map f }

def CatchClause.map (f : α → β) (clause : CatchClause α) : CatchClause β :=
  { clause with body := clause.body.map f }

def Argument.map (f : α → β) (argument : Argument α) : Argument β :=
  { argument with value := f argument.value }

def Construct.map (f : α → β) : Construct α → Construct β
  | file items => file (items.map f)
  | importModule name => importModule name
  | function decl => function (decl.map f)
  | initializer params body => initializer (params.map (Param.map f)) (body.map (List.map f))
  | variableDecl decl => variableDecl (decl.map f)
  | typeDecl kind decl => typeDecl kind (decl.map f)
  | enumCase decl => enumCase (decl.map f)
  | extensionDecl extended members => extensionDecl extended (members.map f)
  | typeAlias name ty => typeAlias name ty
  | block items => block (items.map f)
  | returnStmt value => returnStmt (value.map f)
  | ifStmt condition thenBranch elseBranch =>
    ifStmt (condition.map f) (thenBranch.map f) (elseBranch.map f)
  | guardStmt condition elseBranch => guardStmt (condition.map f) (elseBranch.map f)
  | whileStmt condition body => whileStmt (f condition) (body.map f)
  | repeatWhile body condition => repeatWhile (body.map f) (f condition)
  | forEach binder sequence body => forEach binder (f sequence) (body.map f)
  | switchStmt subject cases => switchStmt (f subject) (cases.map (SwitchCase.map f))
  | breakStmt => breakStmt
  | continueStmt => continueStmt
  | throwStmt value => throwStmt (f value)
  | deferStmt body => deferStmt (body.map f)
  | doCatch body catches => doCatch (body.map f) (catches.map (CatchClause.map f))
  | literal value => literal value
  | interpolated segments => interpolated (segments.map f)
  | reference name ty => reference name ty
  | binary operator lhs rhs => binary operator (f lhs) (f rhs)
  | prefixUnary operator operand => prefixUnary operator (f operand)
  | assign target value => assign (f target) (f value)
  | call callee arguments => call (f callee) (arguments.map (Argument.map f))
  | member base name => member (f base) name
  | implicitMember name ty => implicitMember name ty
  | subscript base index => subscript (f base) (f index)
  | arrayLiteral items => arrayLiteral (items.map f)
  | dictionaryLiteral entries => dictionaryLiteral (entries.map fun (k, v) => (f k, f v))
  | tuple items => tuple (items.map f)
  | closure params body => closure params (body.map f)
  | ternary condition thenValue elseValue => ternary (f condition) (f thenValue) (f elseValue)
  | wrapped form inner => wrapped form (f inner)
  | cast kind value ty => cast kind (f value) ty
  | invalid kind flaw => invalid kind flaw
  | unknown kind children => unknown kind (children.map f)

/-! ## The parts, in order -/

def Param.parts (param : Param α) : List α :=
  param.defaultValue.toList

def Accessor.parts (accessor : Accessor α) : List α :=
  accessor.body.getD []

def Condition.parts : Condition α → List α
  | expr value => [value]
  | binding _ value _ => [value]

def SwitchCase.parts (case : SwitchCase α) : List α :=
  case.patterns ++ case.body

def Construct.parts : Construct α → List α
  | file items => items
  | importModule _ => []
  | function decl => decl.params.flatMap Param.parts ++ decl.body.getD []
  | initializer params body => params.flatMap Param.parts ++ body.getD []
  | variableDecl decl => decl.init.toList ++ decl.accessors.flatMap Accessor.parts
  | typeDecl _ decl => decl.members
  | enumCase decl => decl.params.flatMap Param.parts ++ decl.rawValue.toList
  | extensionDecl _ members => members
  | typeAlias _ _ => []
  | block items => items
  | returnStmt value => value.toList
  | ifStmt condition thenBranch elseBranch =>
    condition.parts ++ thenBranch ++ elseBranch.toList
  | guardStmt condition elseBranch => condition.parts ++ elseBranch
  | whileStmt condition body => condition :: body
  | repeatWhile body condition => body ++ [condition]
  | forEach _ sequence body => sequence :: body
  | switchStmt subject cases => subject :: cases.flatMap SwitchCase.parts
  | breakStmt => []
  | continueStmt => []
  | throwStmt value => [value]
  | deferStmt body => body
  | doCatch body catches => body ++ catches.flatMap CatchClause.body
  | literal _ => []
  | interpolated segments => segments
  | reference _ _ => []
  | binary _ lhs rhs => [lhs, rhs]
  | prefixUnary _ operand => [operand]
  | assign target value => [target, value]
  | call callee arguments => callee :: arguments.map Argument.value
  | member base _ => [base]
  | implicitMember _ _ => []
  | subscript base index => [base, index]
  | arrayLiteral items => items
  | dictionaryLiteral entries => entries.flatMap fun (k, v) => [k, v]
  | tuple items => items
  | closure _ body => body
  | ternary condition thenValue elseValue => [condition, thenValue, elseValue]
  | wrapped _ inner => [inner]
  | cast _ value _ => [value]
  | invalid _ _ => []
  | unknown _ children => children

/-! ## Visiting the parts with an effect -/

section Effects

variable {m : Type → Type} [Monad m]

def optionM (f : α → m β) : Option α → m (Option β)
  | none => pure none
  | some a => do return some (← f a)

def Param.mapM (f : α → m β) (param : Param α) : m (Param β) := do
  return { param with defaultValue := ← optionM f param.defaultValue }

def FunctionDecl.mapM (f : α → m β) (decl : FunctionDecl α) : m (FunctionDecl β) := do
  let params ← decl.params.mapM (Param.mapM f)
  let body ← optionM (List.mapM f) decl.body
  return { decl with params, body }

def Accessor.mapM (f : α → m β) (accessor : Accessor α) : m (Accessor β) := do
  return { accessor with body := ← optionM (List.mapM f) accessor.body }

def VariableDecl.mapM (f : α → m β) (decl : VariableDecl α) : m (VariableDecl β) := do
  let init ← optionM f decl.init
  let accessors ← decl.accessors.mapM (Accessor.mapM f)
  return { decl with init, accessors }

def TypeDecl.mapM (f : α → m β) (decl : TypeDecl α) : m (TypeDecl β) := do
  return { decl with members := ← decl.members.mapM f }

def EnumCaseDecl.mapM (f : α → m β) (decl : EnumCaseDecl α) : m (EnumCaseDecl β) := do
  let params ← decl.params.mapM (Param.mapM f)
  let rawValue ← optionM f decl.rawValue
  return { decl with params, rawValue }

def Condition.mapM (f : α → m β) : Condition α → m (Condition β)
  | expr value => do return expr (← f value)
  | binding name value range => do return binding name (← f value) range

def SwitchCase.mapM (f : α → m β) (case : SwitchCase α) : m (SwitchCase β) := do
  let patterns ← case.patterns.mapM f
  let body ← case.body.mapM f
  return { case with patterns, body }

def CatchClause.mapM (f : α → m β) (clause : CatchClause α) : m (CatchClause β) := do
  return { clause with body := ← clause.body.mapM f }

def Argument.mapM (f : α → m β) (argument : Argument α) : m (Argument β) := do
  return { argument with value := ← f argument.value }

def Construct.mapM (f : α → m β) : Construct α → m (Construct β)
  | file items => do return file (← items.mapM f)
  | importModule name => pure (importModule name)
  | function decl => do return function (← decl.mapM f)
  | initializer params body => do
    return initializer (← params.mapM (Param.mapM f)) (← optionM (List.mapM f) body)
  | variableDecl decl => do return variableDecl (← decl.mapM f)
  | typeDecl kind decl => do return typeDecl kind (← decl.mapM f)
  | enumCase decl => do return enumCase (← decl.mapM f)
  | extensionDecl extended members => do return extensionDecl extended (← members.mapM f)
  | typeAlias name ty => pure (typeAlias name ty)
  | block items => do return block (← items.mapM f)
  | returnStmt value => do return returnStmt (← optionM f value)
  | ifStmt condition thenBranch elseBranch => do
    return ifStmt (← condition.mapM f) (← thenBranch.mapM f) (← optionM f elseBranch)
  | guardStmt condition elseBranch => do
    return guardStmt (← condition.mapM f) (← elseBranch.mapM f)
  | whileStmt condition body => do return whileStmt (← f condition) (← body.mapM f)
  | repeatWhile body condition => do return repeatWhile (← body.mapM f) (← f condition)
  | forEach binder sequence body => do return forEach binder (← f sequence) (← body.mapM f)
  | switchStmt subject cases => do
    return switchStmt (← f subject) (← cases.mapM (SwitchCase.mapM f))
  | breakStmt => pure breakStmt
  | continueStmt => pure continueStmt
  | throwStmt value => do return throwStmt (← f value)
  | deferStmt body => do return deferStmt (← body.mapM f)
  | doCatch body catches => do
    return doCatch (← body.mapM f) (← catches.mapM (CatchClause.mapM f))
  | literal value => pure (literal value)
  | interpolated segments => do return interpolated (← segments.mapM f)
  | reference name ty => pure (reference name ty)
  | binary operator lhs rhs => do return binary operator (← f lhs) (← f rhs)
  | prefixUnary operator operand => do return prefixUnary operator (← f operand)
  | assign target value => do return assign (← f target) (← f value)
  | call callee arguments => do
    return call (← f callee) (← arguments.mapM (Argument.mapM f))
  | member base name => do return member (← f base) name
  | implicitMember name ty => pure (implicitMember name ty)
  | subscript base index => do return subscript (← f base) (← f index)
  | arrayLiteral items => do return arrayLiteral (← items.mapM f)
  | dictionaryLiteral entries => do
    return dictionaryLiteral (← entries.mapM fun (k, v) => do return (← f k, ← f v))
  | tuple items => do return tuple (← items.mapM f)
  | closure params body => do return closure params (← body.mapM f)
  | ternary condition thenValue elseValue => do
    return ternary (← f condition) (← f thenValue) (← f elseValue)
  | wrapped form inner => do return wrapped form (← f inner)
  | cast kind value ty => do return cast kind (← f value) ty
  | invalid kind flaw => pure (invalid kind flaw)
  | unknown kind children => do return unknown kind (← children.mapM f)

end Effects

end SwiftToKotlin.Swift
