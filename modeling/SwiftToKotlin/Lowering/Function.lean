import SwiftToKotlin.Lowering.Statement

/-! # Functions, initializers and variables -/

namespace SwiftToKotlin.Lowering

open Swift (Node)

namespace Function

variable (descent : Descent)

/-- A parameter, which is a local from here on. -/
def param (range : Option SourceRange) (param : Swift.Param Node) :
    Lower (Kotlin.Param Kotlin.Node) := do
  declare param.name (some param.ty)
  let ty ← lowerTy param.ty range
  let defaultValue ← Swift.optionM descent.value param.defaultValue
  return { name := identifier param.name, ty, defaultValue }

def body (statements : List Node) : Lower (List Kotlin.Node) :=
  inFunction (descent.statements statements)

/-- A single expression is what a function with a result returns. -/
def returning (body : List Kotlin.Node) : List Kotlin.Node :=
  match body with
  | [single] =>
    if single.construct.isExpression then [⟨.returnStmt (some single), single.range⟩] else body
  | _ => body

def returningBody (statements : List Node) : Lower (List Kotlin.Node) := do
  return returning (← body descent statements)

/-- A result that needs no mention is left out. -/
def mentioned : Kotlin.Ty → Option Kotlin.Ty
  | .named "Unit" [] => none
  | ty => some ty

/-- The type that a function or property extends. Static members extend the companion. -/
def receiver? (scope : Scope) (isStatic : Bool) : Option Kotlin.Ty :=
  scope.receiver?.map fun ty => if isStatic then .named s!"{ty.display}.Companion" [] else ty

def function (decl : Swift.FunctionDecl Node) (range : Option SourceRange) :
    Lower Kotlin.Node := do
  let scope := (← surroundings).scope
  let (params, returnType, statements) ← inBlock do
    let params ← decl.params.mapM (param descent range)
    let result ← Swift.optionM (lowerTy · range) decl.result
    let returnType := result.bind mentioned
    let statements ← match decl.body with
      | some statements =>
        if returnType.isSome then some <$> returningBody descent statements
        else some <$> body descent statements
      | none => pure none
    return (params, returnType, statements)
  let modifiers := (if decl.isOverride then [.overrideMember] else [])
    ++ (if statements.isNone && scope.isType then [.abstractMember] else [])
  return ⟨.function
    { name := identifier decl.name, receiver := receiver? scope decl.isStatic, params,
      returnType, body := statements, modifiers }, range⟩

def initializer (params : List (Swift.Param Node)) (statements : Option (List Node))
    (range : Option SourceRange) : Lower Kotlin.Node := do
  if !(← surroundings).scope.isType then refuse .initializerInExtension range
  else inBlock do
    let params ← params.mapM (param descent range)
    let statements ← Swift.optionM (body descent) statements
    return ⟨.secondaryConstructor params (statements.getD []), range⟩

/-! ## Variables -/

def binding (isLet : Bool) : Kotlin.Binding :=
  if isLet then .val else .var

/-- The type of a variable: the declared one, or that of the initial value. -/
def variableType (decl : Swift.VariableDecl Node) : Lower (Option Swift.Ty) := do
  match decl.ty, decl.init with
  | some ty, _ => return some ty
  | none, some init => typeOf init
  | none, none => return none

def accessor? (decl : Swift.VariableDecl Node) (kind : Swift.AccessorKind) :
    Option (Swift.Accessor Node) :=
  decl.accessors.find? (·.kind == kind)

def computedProperty (decl : Swift.VariableDecl Node) (ty : Option Kotlin.Ty)
    (range : Option SourceRange) : Lower Kotlin.Node := do
  let scope := (← surroundings).scope
  let getter ← Swift.optionM (returningBody descent) ((accessor? decl .get).bind (·.body))
  let setter ← Swift.optionM (body descent) ((accessor? decl .set).bind (·.body))
  return ⟨.property
    { name := identifier decl.name
      binding := binding (accessor? decl .set).isNone
      ty, receiver := scope.receiver?, getter, setter
      modifiers := if getter.isNone && scope.isType then [.abstractMember] else [] }, range⟩

/-- The initial value of a variable. A bare case in it belongs to the declared type. -/
def initialValue (decl : Swift.VariableDecl Node) (init : Node) : Lower Kotlin.Node := do
  let expected := (decl.ty.bind (enumNamed? (← types))).or (← surroundings).expectedEnum
  expecting expected (descent.kept init)

/-- The variable is declared after its initial value, which still sees what it hides. -/
def storedProperty (decl : Swift.VariableDecl Node) (known : Option Swift.Ty)
    (ty : Option Kotlin.Ty) (range : Option SourceRange) : Lower Kotlin.Node := do
  let init ← Swift.optionM (initialValue descent decl) decl.init
  declare decl.name known
  return ⟨.property { name := identifier decl.name, binding := binding decl.isLet, ty, init },
    range⟩

def variableDecl (decl : Swift.VariableDecl Node) (range : Option SourceRange) :
    Lower Kotlin.Node := do
  let known ← variableType decl
  if decl.isStored && (← surroundings).scope.receiver?.isSome then
    refuse (.storedPropertyInExtension decl.name) range
  else
    let ty ← Swift.optionM (lowerTy · range) decl.ty
    if decl.isStored then storedProperty descent decl known ty range
    else
      declare decl.name known
      computedProperty descent decl ty range

end Function

end SwiftToKotlin.Lowering
