import SwiftToKotlin.Lowering.Call
import SwiftToKotlin.Swift.Tag
import SwiftToKotlin.Text.Numeral

/-! # Expressions -/

namespace SwiftToKotlin.Lowering

open Swift (Node Ty)

/-! ## Operators -/

def isAssignmentOperator (operator : String) : Bool :=
  ["+=", "-=", "*=", "/=", "%=", "&=", "|=", "^=", "<<=", ">>="].contains operator

def binaryOp? : String → Option Kotlin.BinaryOp
  | "*" => some .mul
  | "/" => some .div
  | "%" => some .rem
  | "+" => some .add
  | "-" => some .sub
  | "..." => some .rangeTo
  | "..<" => some .rangeUntil
  | "&" => some .and
  | "|" => some .or
  | "^" => some .xor
  | "<<" => some .shl
  | ">>" => some .shr
  | "??" => some .elvis
  | "<" => some .lt
  | "<=" => some .le
  | ">" => some .gt
  | ">=" => some .ge
  | "==" => some .eq
  | "!=" => some .ne
  | "===" => some .identical
  | "!==" => some .notIdentical
  | "&&" => some .conj
  | "||" => some .disj
  | _ => none

def unaryOp? : String → Option Kotlin.UnaryOp
  | "-" => some .neg
  | "+" => some .plus
  | "!" => some .not
  | _ => none

/-! ## Anonymous parameters -/

/-- The index of an anonymous parameter `$0`, `$1`, … -/
def anonymousIndex? (name : String) : Option Nat :=
  match name.toList with
  | '$' :: digits => Text.readNatural digits
  | _ => none

def anonymousName (index : Nat) : String :=
  if index = 0 then "it" else s!"it{index}"

namespace Expression

variable (descent : Descent)

def literal : Swift.Literal → Kotlin.Literal
  | .integer text => .int text
  | .float text => .double text
  | .boolean value => .bool value
  | .string text => .string text
  | .nil => .null

def templatePart (segment : Node) : Lower (Kotlin.TemplatePart Kotlin.Node) :=
  match segment.construct with
  | .literal (.string text) => pure (.text text)
  | _ => do return .expr (← descent.value segment)

def reference (name : String) (range : Option SourceRange) : Lower Kotlin.Node := do
  match anonymousIndex? name, (← surroundings).closureDepth with
  | some index, _ + 1 =>
    useAnonymous index
    return .reference (anonymousName index) range
  | _, _ => return .reference (identifier ((← locals).written name)) range

def binary (operator : String) (lhs rhs : Node) (range : Option SourceRange) :
    Lower Kotlin.Node := do
  if isAssignmentOperator operator then refuse (.compoundAssignmentAsValue operator) range
  else match binaryOp? operator with
    | some op => return .binary op (← descent.value lhs) (← descent.value rhs) range
    | none => refuse (.operator operator) range

def prefixUnary (operator : String) (operand : Node) (range : Option SourceRange) :
    Lower Kotlin.Node :=
  if operator = "~" then do
    return Call.method (← descent.value operand) "inv" false range
  else match unaryOp? operator with
    | some op => do return ⟨.unary op (← descent.value operand), range⟩
    | none => refuse (.prefixOperator operator) range

def tuple (items : List Node) (range : Option SourceRange) : Lower Kotlin.Node :=
  match items with
  | [] => pure (.reference "Unit" range)
  | [single] => descent.value single
  | [_, _] => do return .call (.reference "Pair" range) (← items.mapM descent.kept) range
  | [_, _, _] => do return .call (.reference "Triple" range) (← items.mapM descent.kept) range
  | _ => refuse (.tupleOf items.length) range

def dictionaryEntry (range : Option SourceRange) (entry : Node × Node) : Lower Kotlin.Node := do
  let key ← descent.value entry.1
  let value ← descent.kept entry.2
  return .binary .pair key value range

def subscript (base index : Node) (range : Option SourceRange) : Lower Kotlin.Node := do
  let index ← descent.value index
  let (target, safe) := chainTarget base
  let receiver ← descent.value target
  if safe then return .call ⟨.member receiver "get" true, range⟩ [index] range
  else return ⟨.index receiver index, range⟩

/-! ## Members -/

/-- A property of a value. Some properties of texts and collections have other names in Kotlin, or
are functions there. -/
def property (receiver : Kotlin.Node) (type : Option Ty) (name : String) (safe : Bool)
    (range : Option SourceRange) : Kotlin.Node :=
  let onText := type.any Ty.isText
  let onCollection := type.any Ty.isCollection
  let plain (name : String) : Kotlin.Node := ⟨.member receiver name safe, range⟩
  match name with
  | "count" => plain (if onText then "length" else "size")
  | "isEmpty" => Call.method receiver "isEmpty" safe range
  | "first" =>
    if onText || onCollection then Call.method receiver "firstOrNull" safe range else plain "first"
  | "last" =>
    if onText || onCollection then Call.method receiver "lastOrNull" safe range else plain "last"
  | name => plain (identifier name)

/-- The enum whose case a member is, where the base is the name of an enum. -/
def namedEnum? (types : DeclaredTypes) (base : Node) (name : String) : Option String :=
  match base.construct with
  | .reference owner _ =>
    if types.hasCase (types.resolve owner) name then some (types.resolve owner) else none
  | _ => none

def member (base : Node) (name : String) (range : Option SourceRange) : Lower Kotlin.Node := do
  match namedEnum? (← types) base name with
  | some enum => caseReference enum name range
  | none =>
    let (target, safe) := chainTarget base
    let type ← typeOf target
    return property (← descent.value target) type name safe range

def implicitMember (name : String) (ty : Option Ty) (range : Option SourceRange) :
    Lower Kotlin.Node := do
  match implicitEnum? (← types) (← surroundings) name ty with
  | some enum => caseReference enum name range
  | none =>
    match ty.bind (·.nonOptional.name?) with
    | some owner =>
      return .member (.reference (kotlinTypeName owner) range) (identifier name) range
    | none => refuse (.implicitMember name) range

/-! ## Closures -/

/-- The last statement of a closure. The value it returns is the value of the lambda. -/
def lastStatement (node : Node) : Lower (List Kotlin.Node) :=
  match node.construct with
  | .returnStmt (some value) => do return [← descent.kept value]
  | .returnStmt none => pure []
  | _ => descent.statement node

def closureBody (body : List Node) : Lower (List Kotlin.Node) :=
  match body.getLast? with
  | some last => do
    let first ← descent.statements body.dropLast
    return first ++ (← lastStatement descent last)
  | none => pure []

def closure (params : List String) (body : List Node) (range : Option SourceRange) :
    Lower Kotlin.Node := do
  let (body, greatest) ← inClosure do
    params.forM (declare · none)
    closureBody descent body
  let names := match params, greatest with
    | [], some greatest => (List.range (greatest + 1)).map anonymousName
    | params, _ => params.map identifier
  return ⟨.lambda names body, range⟩

/-! ## Wrapped expressions and casts -/

def wrapped (form : Swift.Wrapper) (inner : Node) (range : Option SourceRange) :
    Lower Kotlin.Node := do
  let inner ← descent.value inner
  match form with
  | .forceUnwrap => return ⟨.notNullAssert inner, range⟩
  | .optionalTry =>
    let attempt : Kotlin.Node :=
      ⟨.call (.reference "runCatching" range) [] (some ⟨.lambda [] [inner], range⟩), range⟩
    return Call.method attempt "getOrNull" false range
  | _ => return inner

def castKind : Swift.CastKind → Kotlin.CastKind
  | .coerce => .unchecked
  | .forced => .unchecked
  | .conditional => .safe
  | .check => .check

def ternary (test thenValue elseValue : Node) (range : Option SourceRange) :
    Lower Kotlin.Node := do
  let test ← descent.value test
  let thenValue ← descent.kept thenValue
  let elseValue ← descent.kept elseValue
  return ⟨.ifExpr test thenValue elseValue, range⟩

/-- The comment for a node that could not be read. -/
def invalidComment (kind : String) (flaw : Swift.Flaw) (range : Option SourceRange) :
    Kotlin.Node :=
  .comment s!"invalid `{kind}`: {flaw.message}" range

/-- The comment for a node of an unknown kind. -/
def unknownComment (kind : String) (range : Option SourceRange) : Kotlin.Node :=
  .comment s!"unrecognized construct: {kind}" range

/-- A node in the place of a value. -/
def lower (node : Node) : Lower Kotlin.Node :=
  let range := node.range
  match node.construct with
  | .literal value => pure (.literal (literal value) range)
  | .interpolated segments => do
    return ⟨.template (← segments.mapM (templatePart descent)), range⟩
  | .reference name _ => reference name range
  | .binary operator lhs rhs => binary descent operator lhs rhs range
  | .prefixUnary operator operand => prefixUnary descent operator operand range
  | .assign _ _ => refuse .assignmentAsValue range
  | .call callee arguments => Call.lower descent callee arguments range
  | .member base name => member descent base name range
  | .implicitMember name ty => implicitMember name ty range
  | .subscript base index => subscript descent base index range
  | .arrayLiteral items => do
    return .call (.reference "mutableListOf" range) (← items.mapM descent.kept) range
  | .dictionaryLiteral entries => do
    return .call (.reference "mutableMapOf" range)
      (← entries.mapM (dictionaryEntry descent range)) range
  | .tuple items => tuple descent items range
  | .closure params body => closure descent params body range
  | .ternary test thenValue elseValue => ternary descent test thenValue elseValue range
  | .wrapped form inner => wrapped descent form inner range
  | .cast kind value ty => do
    let value ← descent.value value
    return ⟨.cast (castKind kind) value (← lowerTy ty range), range⟩
  | .invalid kind flaw => pure (invalidComment kind flaw range)
  | .unknown kind _ => pure (unknownComment kind range)
  | construct => refuse (.statementAsValue construct.tag.label) range

end Expression

end SwiftToKotlin.Lowering
