import SwiftToKotlin.Lowering.Expression

/-! # Statements -/

namespace SwiftToKotlin.Lowering

open Swift (Node Ty)

namespace Statement

variable (descent : Descent)

/-! ## Small trees -/

def ifNode (condition : Kotlin.Node) (thenBranch : List Kotlin.Node)
    (elseBranch : Option (List Kotlin.Node)) (range : Option SourceRange) : Kotlin.Node :=
  ⟨.ifStmt condition thenBranch elseBranch, range⟩

def isNull (value : Kotlin.Node) (range : Option SourceRange) : Kotlin.Node :=
  .binary .eq value (.literal .null none) range

def isNotNull (value : Kotlin.Node) : Kotlin.Node :=
  .binary .ne value (.literal .null none) value.range

def negation (condition : Kotlin.Node) : Kotlin.Node :=
  ⟨.unary .not condition, condition.range⟩

/-- A value bound to a name of its own. -/
def bound (name : String) (value : Kotlin.Node) (range : Option SourceRange) : Kotlin.Node :=
  ⟨.property { name, binding := .val, init := some value }, range⟩

/-- A call of a function on a lambda alone. -/
def applied (callee : Kotlin.Node) (params : List String) (body : List Kotlin.Node)
    (range : Option SourceRange) : Kotlin.Node :=
  ⟨.call callee [] (some ⟨.lambda params body, range⟩), range⟩

/-! ## Blocks and returns -/

/-- A block on its own runs at once. -/
def block (items : List Node) (range : Option SourceRange) : Lower Kotlin.Node := do
  return applied (.reference "run" range) [] (← descent.statements items) range

def returnStmt (value : Option Node) (range : Option SourceRange) : Lower Kotlin.Node := do
  if (← surroundings).closureDepth > 0 then refuse .returnInClosure range
  else match value with
    | some value => return ⟨.returnStmt (some (← descent.kept value)), range⟩
    | none => return ⟨.returnStmt none, range⟩

/-! ## Conditions and bindings -/

def elseBranch (branch : Node) : Lower (List Kotlin.Node) :=
  match branch.construct with
  | .block items => descent.statements items
  | _ => descent.statement branch

def optionalElse : Option Node → Lower (Option (List Kotlin.Node))
  | some branch => do return some (← elseBranch descent branch)
  | none => pure none

/-- The type of a value once it is known not to be `nil`. -/
def boundType (value : Node) : Lower (Option Ty) := do
  return (← typeOf value).map Ty.nonOptional

def bindingShape (style : BindingStyle) (name : String) (value : Kotlin.Node)
    (thenBranch : List Kotlin.Node) (elseBranch : Option (List Kotlin.Node))
    (bindingRange range : Option SourceRange) : Kotlin.Node :=
  match style with
  | .smartCast => ifNode (isNotNull value) thenBranch elseBranch range
  | .safeLet => applied ⟨.member value "let" true, range⟩ [name] thenBranch range
  | .scopedVal =>
    ⟨.whenStmt (some (bound name value bindingRange))
      [⟨[.value (.literal .null range)], elseBranch.getD []⟩, ⟨[], thenBranch⟩], range⟩

def ifLet (name : String) (value : Node) (bindingRange : Option SourceRange)
    (thenBranch : List Node) (otherwise : Option Node) (range : Option SourceRange) :
    Lower Kotlin.Node := do
  let style := bindingStyle name value thenBranch otherwise.isSome
  let type ← boundType value
  let lowered ← descent.value value
  let thenBranch ← inBlock do
    if style = .smartCast then narrow name type else declare name type
    descent.statements thenBranch
  let elseBranch ← optionalElse descent otherwise
  return bindingShape style (identifier name) lowered thenBranch elseBranch bindingRange range

def ifStmt (condition : Swift.Condition Node) (thenBranch : List Node) (otherwise : Option Node)
    (range : Option SourceRange) : Lower Kotlin.Node :=
  match condition with
  | .expr test => do
    let test ← descent.value test
    let thenBranch ← descent.statements thenBranch
    return ifNode test thenBranch (← optionalElse descent otherwise) range
  | .binding name value bindingRange =>
    ifLet descent name value bindingRange thenBranch otherwise range

/-- The name that a guard binds stays in scope. -/
def guardLet (name : String) (value : Node) (bindingRange : Option SourceRange)
    (otherwise : List Node) (range : Option SourceRange) : Lower (List Kotlin.Node) := do
  let type ← boundType value
  let lowered ← descent.value value
  let body ← descent.statements otherwise
  if rebinds name value then
    narrow name type
    return [ifNode (isNull lowered range) body none range]
  else
    let written ← declareFresh name type
    return [bound written lowered bindingRange,
      ifNode (isNull (.reference written range) range) body none range]

def guardStmt (condition : Swift.Condition Node) (otherwise : List Node)
    (range : Option SourceRange) : Lower (List Kotlin.Node) :=
  match condition with
  | .expr test => do
    let test ← descent.value test
    return [ifNode (negation test) (← descent.statements otherwise) none range]
  | .binding name value bindingRange => guardLet descent name value bindingRange otherwise range

/-! ## Loops -/

/-- A jump in the body of a loop leaves the loop, not a switch around it. -/
def loopBody (body : List Node) : Lower (List Kotlin.Node) :=
  withinCase false (descent.statements body)

def whileStmt (test : Node) (body : List Node) (range : Option SourceRange) :
    Lower Kotlin.Node := do
  let test ← descent.value test
  return ⟨.whileStmt test (← loopBody descent body), range⟩

def repeatWhile (body : List Node) (test : Node) (range : Option SourceRange) :
    Lower Kotlin.Node := do
  let body ← loopBody descent body
  return ⟨.doWhile body (← descent.value test), range⟩

def elementType? : Option Ty → Option Ty
  | some (.array element) => some element
  | _ => none

def forEach (binder : String) (sequence : Node) (body : List Node) (range : Option SourceRange) :
    Lower Kotlin.Node := do
  let element := elementType? (← typeOf sequence)
  let iterable ← descent.value sequence
  let body ← inBlock do
    if binder ≠ "_" then declare binder element
    loopBody descent body
  let name := if binder = "_" then "ignored" else identifier binder
  return ⟨.forStmt name iterable body, range⟩

/-! ## Switches -/

/-- The condition for a pattern. A case with associated values is a class, so it is tested by its
type. -/
def whenCondition (pattern : Node) : Lower (Kotlin.WhenCondition Kotlin.Node) := do
  match pattern.construct with
  | .cast .check _ ty => return .is (← lowerTy ty pattern.range)
  | _ =>
    match ← casePattern pattern with
    | some (enum, case) =>
      if ((← types).case? enum case).any (!·.params.isEmpty) then
        return .is (.named s!"{identifier enum}.{← caseName enum case}" [])
      else return .value (← descent.value pattern)
    | none => return .value (← descent.value pattern)

def isBreak (node : Node) : Bool :=
  match node.construct with
  | .breakStmt => true
  | _ => false

/-- A break at the end of a case goes without saying. -/
def withoutLastBreak (body : List Node) : List Node :=
  if body.getLast?.any isBreak then body.dropLast else body

def whenBranch (case : Swift.SwitchCase Node) : Lower (Kotlin.WhenBranch Kotlin.Node) := do
  let conditions ← case.patterns.mapM (whenCondition descent)
  let body ← withinCase true (descent.statements (withoutLastBreak case.body))
  return ⟨conditions, body⟩

def switchStmt (subject : Node) (cases : List (Swift.SwitchCase Node))
    (range : Option SourceRange) : Lower Kotlin.Node := do
  let enum ← enumOf subject
  let subject ← descent.value subject
  let branches ← expecting enum (cases.mapM (whenBranch descent))
  return ⟨.whenStmt (some subject) branches, range⟩

def breakStmt (range : Option SourceRange) : Lower Kotlin.Node := do
  if (← surroundings).inCase then refuse .breakInCase range else return ⟨.breakStmt, range⟩

/-! ## Errors -/

def catchBlock (clause : Swift.CatchClause Node) : Lower (Kotlin.CatchBlock Kotlin.Node) := do
  let ty ← match clause.ty with
    | some ty => lowerTy ty clause.range
    | none => pure (.named "Exception" [])
  let name := clause.name.getD "error"
  let body ← inBlock do
    declare name clause.ty
    descent.statements clause.body
  return { name := identifier name, ty, body }

def doCatch (body : List Node) (catches : List (Swift.CatchClause Node))
    (range : Option SourceRange) : Lower Kotlin.Node := do
  let body ← descent.statements body
  return ⟨.tryCatch body (← catches.mapM (catchBlock descent)), range⟩

/-! ## Assignments -/

/-- Whether a target only throws its value away. -/
def isDiscard (target : Node) : Bool :=
  match target.construct with
  | .reference "_" _ => true
  | _ => false

def assign (target value : Node) (range : Option SourceRange) : Lower Kotlin.Node := do
  if isDiscard target then descent.value value
  else
    let expected := (← enumOf target).or (← surroundings).expectedEnum
    let value ← expecting expected (descent.kept value)
    return ⟨.assign .assign (← descent.value target) value, range⟩

/-- Kotlin's own compound assignments. -/
def assignOp? : String → Option Kotlin.AssignOp
  | "+=" => some .add
  | "-=" => some .sub
  | "*=" => some .mul
  | "/=" => some .div
  | "%=" => some .rem
  | _ => none

/-- The compound assignments that Kotlin has to spell out. -/
def spelledOutOp? : String → Option Kotlin.BinaryOp
  | "&=" => some .and
  | "|=" => some .or
  | "^=" => some .xor
  | "<<=" => some .shl
  | ">>=" => some .shr
  | _ => none

def compoundAssign (operator : String) (target value : Node) (range : Option SourceRange) :
    Lower Kotlin.Node := do
  let target ← descent.value target
  let value ← descent.value value
  match assignOp? operator, spelledOutOp? operator with
  | some op, _ => return ⟨.assign op target value, range⟩
  | none, some op => return ⟨.assign .assign target (.binary op target value range), range⟩
  | none, none => refuse (.operator operator) range

end Statement

end SwiftToKotlin.Lowering
