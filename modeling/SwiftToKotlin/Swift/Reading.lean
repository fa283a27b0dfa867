import SwiftToKotlin.Swift.Catalogue
import SwiftToKotlin.Text.Numeral

/-! # Reading one dump node as a construct

A node is read without its descendants: the parts of the construct are still nodes of the dump. All
that is asked of the parts, their kinds and their number, is checked here, so that a flawed node is
refused as a whole before anything below it is read.
-/

namespace SwiftToKotlin.Swift

namespace Reading

abbrev Read := Except Flaw

def attr (raw : Dump.Node) (key : String) : Read String :=
  match raw.attr key with
  | some value => .ok value
  | none => .error (.missingAttribute key)

def ty (text : String) : Read Ty :=
  (Ty.parse text).mapError .invalidType

def requiredTy (raw : Dump.Node) (key : String) : Read Ty := do
  ty (← attr raw key)

def optionalTy (raw : Dump.Node) (key : String) : Read (Option Ty) :=
  match raw.attr key with
  | some text => some <$> ty text
  | none => .ok none

def expectKind (kind : String) (raw : Dump.Node) : Read Unit :=
  if raw.kind = kind then .ok () else .error (.expectedKind kind raw.kind)

/-- Whether nodes of the kind may stand where an expression is expected. A kind that is not in the
catalogue may. -/
def maybeExpression (kind : String) : Bool :=
  match Catalogue.entryFor? kind with
  | some entry => entry.tag.any Tag.isExpression
  | none => true

def expression (raw : Dump.Node) : Read Dump.Node :=
  if maybeExpression raw.kind then .ok raw else .error (.expectedExpression raw.kind)

def braces (raw : Dump.Node) : Read (List Dump.Node) := do
  expectKind "brace_stmt" raw
  return raw.children

def onlyChild (raw : Dump.Node) : Read Dump.Node :=
  match raw.children with
  | [child] => .ok child
  | children => .error (.childCount children.length)

def onlyExpression (raw : Dump.Node) : Read Dump.Node := do
  expression (← onlyChild raw)

/-! ## Declarations -/

/-- The label of a parameter is its name unless it is given; `_` stands for none. -/
def paramLabel (raw : Dump.Node) (name : String) : Option String :=
  match raw.attr "label" with
  | some "_" => none
  | some label => some label
  | none => some name

def param (raw : Dump.Node) : Read (Param Dump.Node) := do
  if raw.kind ≠ "parameter" then .error (.strayParameter raw.kind)
  let name ← attr raw "name"
  let ty ← requiredTy raw "type"
  let label := paramLabel raw name
  match raw.children with
  | [] => return { label, name, ty, defaultValue := none }
  | [value] => return { label, name, ty, defaultValue := some (← expression value) }
  | _ => .error (.severalDefaultValues name)

def params (list : Dump.Node) : Read (List (Param Dump.Node)) :=
  list.children.mapM param

/-- An optional body and nothing after it. -/
def optionalBody : List Dump.Node → Read (Option (List Dump.Node))
  | [] => .ok none
  | child :: rest =>
    if child.kind = "brace_stmt" then
      match rest with
      | [] => .ok (some child.children)
      | extra :: _ => .error (.unexpectedChild extra.kind)
    else .error (.unexpectedChild child.kind)

/-- An optional parameter list and an optional body. -/
def signature (children : List Dump.Node) :
    Read (List (Param Dump.Node) × Option (List Dump.Node)) :=
  match children with
  | [] => .ok ([], none)
  | first :: rest =>
    if first.kind = "parameter_list" then do
      let body ← optionalBody rest
      return (← params first, body)
    else do
      return ([], ← optionalBody children)

def function (raw : Dump.Node) : Read (Construct Dump.Node) := do
  let name ← attr raw "name"
  let result ← optionalTy raw "result"
  let (params, body) ← signature raw.children
  return .function
    { name, params, result, body, isStatic := raw.has "static", isMutating := raw.has "mutating",
      throws := raw.has "throws", isOverride := raw.has "override" }

def initializer (raw : Dump.Node) : Read (Construct Dump.Node) := do
  let (params, body) ← signature raw.children
  return .initializer params body

def accessorKind (raw : Dump.Node) : Read AccessorKind :=
  match raw.attr "kind" with
  | some "get" => .ok .get
  | some "set" => .ok .set
  | some other => .error (.unknownAccessor other)
  | none => .error .accessorWithoutKind

def accessorBody (raw : Dump.Node) : Read (Option (List Dump.Node)) :=
  match raw.children with
  | [] => .ok none
  | [body] => if body.kind = "brace_stmt" then .ok (some body.children) else .error .accessorBody
  | _ => .error .accessorBody

/-- Accessors of pairwise different kinds, none of which is among `seen`. -/
def accessors (seen : List AccessorKind) : List Dump.Node → Read (List (Accessor Dump.Node))
  | [] => .ok []
  | raw :: rest => do
    let kind ← accessorKind raw
    if kind ∈ seen then .error .repeatedAccessor
    let body ← accessorBody raw
    return { kind, body } :: (← accessors (kind :: seen) rest)

def initialValue : List Dump.Node → Read (Option Dump.Node)
  | [] => .ok none
  | [value] => some <$> expression value
  | _ => .error .severalInitializers

def variableDecl (raw : Dump.Node) : Read (Construct Dump.Node) := do
  let name ← attr raw "name"
  let ty ← optionalTy raw "type"
  let (own, rest) := raw.children.partition (·.kind == "accessor_decl")
  let init ← initialValue rest
  let accessors ← accessors [] own
  return .variableDecl
    { name, ty, isLet := raw.has "let", isStatic := raw.has "static", init, accessors }

/-- The non-empty names between commas. -/
def nameList (text : String) : List String :=
  (((Text.pieces ',' text.toList).map Text.trim).filter (!·.isEmpty)).map String.ofList

def typeDecl (kind : TypeKind) (raw : Dump.Node) : Read (Construct Dump.Node) := do
  let name ← attr raw "name"
  let inherits := ((raw.attr "inherits").map nameList).getD []
  return .typeDecl kind { name, inherits, members := raw.children }

/-- The parameter list and the raw value among the children of an enum case. -/
def caseParts (list rawValue : Option Dump.Node) :
    List Dump.Node → Read (Option Dump.Node × Option Dump.Node)
  | [] => .ok (list, rawValue)
  | child :: rest =>
    if child.kind = "parameter_list" ∧ list.isNone then caseParts (some child) rawValue rest
    else if rawValue.isNone then do
      let value ← expression child
      caseParts list (some value) rest
    else .error (.unexpectedChild child.kind)

def enumCase (raw : Dump.Node) : Read (Construct Dump.Node) := do
  let name ← attr raw "name"
  match ← caseParts none none raw.children with
  | (some _, some _) => .error .associatedAndRawValue
  | (some list, none) => return .enumCase { name, params := ← params list, rawValue := none }
  | (none, rawValue) => return .enumCase { name, params := [], rawValue }

/-! ## Statements -/

def condition (raw : Dump.Node) : Read (Condition Dump.Node) :=
  if raw.kind = "optional_binding" then
    match raw.attr "name" with
    | none => .error .bindingWithoutName
    | some name =>
      match raw.children with
      | [value] => do return .binding name (← expression value) raw.range
      | _ => .error .bindingValue
  else do
    return .expr (← expression raw)

def elseBranch (raw : Dump.Node) : Read Dump.Node :=
  if raw.kind = "brace_stmt" ∨ raw.kind = "if_stmt" then .ok raw
  else .error (.elseBranch raw.kind)

def ifStmt (raw : Dump.Node) : Read (Construct Dump.Node) :=
  match raw.children with
  | test :: thenBranch :: rest => do
    let test ← condition test
    let thenBranch ← braces thenBranch
    match rest with
    | other :: _ => return .ifStmt test thenBranch (some (← elseBranch other))
    | [] => return .ifStmt test thenBranch none
  | _ => .error (.incomplete "a condition and a body")

def guardStmt (raw : Dump.Node) : Read (Construct Dump.Node) :=
  match raw.children with
  | [test, body] => do return .guardStmt (← condition test) (← braces body)
  | _ => .error (.incomplete "a condition and an else body")

def whileStmt (raw : Dump.Node) : Read (Construct Dump.Node) :=
  match raw.children with
  | [test, body] => do return .whileStmt (← expression test) (← braces body)
  | _ => .error (.incomplete "a condition and a body")

def repeatWhile (raw : Dump.Node) : Read (Construct Dump.Node) :=
  match raw.children with
  | [body, test] => do return .repeatWhile (← braces body) (← expression test)
  | _ => .error (.incomplete "a body and a condition")

def forEach (raw : Dump.Node) : Read (Construct Dump.Node) := do
  let binder ← attr raw "variable"
  match raw.children with
  | [sequence, body] => return .forEach binder (← expression sequence) (← braces body)
  | _ => .error (.incomplete "a sequence and a body")

def switchCase (seenDefault : Bool) (raw : Dump.Node) : Read (SwitchCase Dump.Node) := do
  expectKind "case_stmt" raw
  let isDefault := raw.has "default"
  if isDefault && seenDefault then .error .severalDefaultCases
  match raw.children.getLast? with
  | none => .error .caseWithoutBody
  | some body =>
    let patterns := raw.children.dropLast
    let body ← braces body
    if patterns.isEmpty && !isDefault then .error .caseWithoutPatterns
    return { patterns := ← patterns.mapM expression, body, range := raw.range }

/-- At most one case is a default case. -/
def switchCases (seenDefault : Bool) : List Dump.Node → Read (List (SwitchCase Dump.Node))
  | [] => .ok []
  | raw :: rest => do
    let case ← switchCase seenDefault raw
    return case :: (← switchCases (seenDefault || raw.has "default") rest)

def switchStmt (raw : Dump.Node) : Read (Construct Dump.Node) :=
  match raw.children with
  | subject :: cases => do
    return .switchStmt (← expression subject) (← switchCases false cases)
  | [] => .error (.incomplete "a subject")

def catchClause (raw : Dump.Node) : Read (CatchClause Dump.Node) := do
  expectKind "catch_stmt" raw
  match raw.children with
  | [body] =>
    let body ← braces body
    return { name := raw.attr "name", ty := ← optionalTy raw "type", body, range := raw.range }
  | _ => .error .catchBody

def doCatch (raw : Dump.Node) : Read (Construct Dump.Node) :=
  match raw.children with
  | body :: catches => do
    let body ← braces body
    if catches.isEmpty then .error .noCatchClause
    return .doCatch body (← catches.mapM catchClause)
  | [] => .error (.incomplete "a body")

/-! ## Expressions -/

def integer (raw : Dump.Node) : Read (Construct Dump.Node) := do
  let text ← attr raw "value"
  match Text.normalizeInteger text with
  | some text => return .literal (.integer text)
  | none => .error (.notInteger text)

def float (raw : Dump.Node) : Read (Construct Dump.Node) := do
  let text ← attr raw "value"
  if Text.isFloat text then return .literal (.float text) else .error (.notFloat text)

def boolean (raw : Dump.Node) : Read (Construct Dump.Node) := do
  match ← attr raw "value" with
  | "true" => return .literal (.boolean true)
  | "false" => return .literal (.boolean false)
  | other => .error (.notBoolean other)

def binary (raw : Dump.Node) : Read (Construct Dump.Node) := do
  let operator ← attr raw "operator"
  match raw.children with
  | [lhs, rhs] => return .binary operator (← expression lhs) (← expression rhs)
  | _ => .error (.incomplete "two operands")

def assign (raw : Dump.Node) : Read (Construct Dump.Node) :=
  match raw.children with
  | [target, value] => do return .assign (← expression target) (← expression value)
  | _ => .error (.incomplete "a target and a value")

/-- An argument is an expression, or a node that gives one a label. -/
def argument (raw : Dump.Node) : Read (Argument Dump.Node) :=
  if raw.kind = "argument" then
    match raw.children with
    | [value] => do
      return { label := (raw.attr "label").filter (· != "_"), value := ← expression value }
    | _ => .error .argumentValue
  else do
    return { label := none, value := ← expression raw }

def call (raw : Dump.Node) : Read (Construct Dump.Node) :=
  match raw.children with
  | callee :: arguments => do
    return .call (← expression callee) (← arguments.mapM argument)
  | [] => .error (.incomplete "a callee")

def subscript (raw : Dump.Node) : Read (Construct Dump.Node) :=
  match raw.children with
  | [base, index] => do return .subscript (← expression base) (← expression index)
  | _ => .error (.incomplete "a base and an index")

def pairs : List Dump.Node → List (Dump.Node × Dump.Node)
  | key :: value :: rest => (key, value) :: pairs rest
  | _ => []

def dictionary (raw : Dump.Node) : Read (Construct Dump.Node) := do
  if raw.children.length % 2 ≠ 0 then .error .unpairedEntries
  return .dictionaryLiteral (pairs (← raw.children.mapM expression))

def closureParam (raw : Dump.Node) : Read String := do
  expectKind "parameter" raw
  attr raw "name"

/-- The statements of a closure. An expression alone is what the closure returns. -/
def closureBody (raw : Dump.Node) : Read (List Dump.Node) :=
  if raw.kind = "brace_stmt" then .ok raw.children
  else do
    let value ← expression raw
    return [⟨"return_stmt", [], [value], value.range⟩]

def closure (raw : Dump.Node) : Read (Construct Dump.Node) :=
  match raw.children with
  | [body] => do return .closure [] (← closureBody body)
  | [list, body] => do
    expectKind "parameter_list" list
    return .closure (← list.children.mapM closureParam) (← closureBody body)
  | _ => .error (.incomplete "parameters and a body")

def ternary (raw : Dump.Node) : Read (Construct Dump.Node) := do
  match ← raw.children.mapM expression with
  | [test, thenValue, elseValue] => return .ternary test thenValue elseValue
  | _ => .error (.incomplete "a condition and two values")

def castKind (kind : String) : CastKind :=
  match kind with
  | "coerce_expr" => .coerce
  | "conditional_checked_cast_expr" => .conditional
  | "forced_checked_cast_expr" => .forced
  | _ => .check

def cast (raw : Dump.Node) : Read (Construct Dump.Node) := do
  let ty ← requiredTy raw "type"
  return .cast (castKind raw.kind) (← onlyExpression raw) ty

/-- Reads a node of the right outward shape as the construct with the tag. -/
def asTagged (raw : Dump.Node) : Tag → Read (Construct Dump.Node)
  | .file => .ok (.file raw.children)
  | .importModule => do return .importModule (← attr raw "module")
  | .function => function raw
  | .initializer => initializer raw
  | .variableDecl => variableDecl raw
  | .typeDecl kind => typeDecl kind raw
  | .enumCase => enumCase raw
  | .extensionDecl => do return .extensionDecl (← attr raw "type") raw.children
  | .typeAlias => do return .typeAlias (← attr raw "name") (← requiredTy raw "type")
  | .block => .ok (.block raw.children)
  | .returnStmt => do return .returnStmt (← raw.children.head?.mapM expression)
  | .ifStmt => ifStmt raw
  | .guardStmt => guardStmt raw
  | .whileStmt => whileStmt raw
  | .repeatWhile => repeatWhile raw
  | .forEach => forEach raw
  | .switchStmt => switchStmt raw
  | .breakStmt => .ok .breakStmt
  | .continueStmt => .ok .continueStmt
  | .throwStmt => do return .throwStmt (← onlyExpression raw)
  | .deferStmt => do return .deferStmt (← braces (← onlyChild raw))
  | .doCatch => doCatch raw
  | .integerLiteral => integer raw
  | .floatLiteral => float raw
  | .booleanLiteral => boolean raw
  | .stringLiteral => do return .literal (.string (← attr raw "value"))
  | .interpolated => do return .interpolated (← raw.children.mapM expression)
  | .nilLiteral => .ok (.literal .nil)
  | .reference => do return .reference (← attr raw "name") (← optionalTy raw "type")
  | .binary => binary raw
  | .prefixUnary => do return .prefixUnary (← attr raw "operator") (← onlyExpression raw)
  | .assign => assign raw
  | .call => call raw
  | .member => do
    let name ← attr raw "name"
    return .member (← onlyExpression raw) name
  | .implicitMember => do return .implicitMember (← attr raw "name") (← optionalTy raw "type")
  | .subscript => subscript raw
  | .arrayLiteral => do return .arrayLiteral (← raw.children.mapM expression)
  | .dictionaryLiteral => dictionary raw
  | .tuple => do return .tuple (← raw.children.mapM expression)
  | .closure => closure raw
  | .ternary => ternary raw
  | .wrapped form => do return .wrapped form (← onlyExpression raw)
  | .cast => cast raw
  | .invalid => .error (.misplaced raw.kind)
  | .unknown => .ok (.unknown raw.kind raw.children)

end Reading

/-- Reads a node of a dump as the construct that its kind names. A kind that is not in the catalogue
is passed on as unknown. -/
def Construct.read (raw : Dump.Node) : Except Flaw (Construct Dump.Node) :=
  match Catalogue.entryFor? raw.kind with
  | none => .ok (.unknown raw.kind raw.children)
  | some entry => do
    entry.validate raw
    match entry.tag with
    | some tag => Reading.asTagged raw tag
    | none => .error (.misplaced raw.kind)

end SwiftToKotlin.Swift
