import SwiftToKotlin.Lowering.Descent

/-! # Calls -/

namespace SwiftToKotlin.Lowering

open Swift (Node Argument)

/-! ## Known functions and methods -/

/-- The Kotlin functions for an initializer of a built-in type: the one that converts a number, and
the one that reads a text. -/
def conversion? : String → Option (String × String)
  | "Int" => some ("toInt", "toIntOrNull")
  | "Int64" => some ("toLong", "toLongOrNull")
  | "Double" => some ("toDouble", "toDoubleOrNull")
  | "Float" => some ("toFloat", "toFloatOrNull")
  | "String" => some ("toString", "toString")
  | _ => none

/-- Methods of collections and texts that have another name in Kotlin. -/
def methodName? : String → Option String
  | "append" => some "add"
  | "compactMap" => some "mapNotNull"
  | "hasPrefix" => some "startsWith"
  | "hasSuffix" => some "endsWith"
  | "joined" => some "joinToString"
  | "lowercased" => some "lowercase"
  | "reduce" => some "fold"
  | "uppercased" => some "uppercase"
  | _ => none

/-- How a method is called in Kotlin: under which name, and whether its arguments change places. -/
structure MethodForm where
  name : String
  reversed : Bool
  deriving DecidableEq

/-- The form of a method on a receiver that may be a text, with the labels of its arguments. -/
def methodForm? (name : String) (labels : List (Option String)) (onText : Bool) :
    Option MethodForm :=
  match name, labels with
  | "removeAll", [] => some ⟨"clear", false⟩
  | "remove", [some "at"] => some ⟨"removeAt", false⟩
  | "insert", [none, some "at"] => some ⟨"add", true⟩
  | name, _ =>
    if name = "append" ∧ onText then none else (methodName? name).map (⟨·, false⟩)

namespace Call

variable (descent : Descent)

def labels (arguments : List (Argument Node)) : List (Option String) :=
  arguments.map Argument.label

def isClosure (node : Node) : Bool :=
  match node.construct with
  | .closure .. => true
  | _ => false

/-- Arguments with the names of the parameters they go to, as far as there are names. -/
def namedArguments : List String → List (Argument Node) → Lower (List (Kotlin.Argument Kotlin.Node))
  | _, [] => pure []
  | names, argument :: rest => do
    let value ← descent.kept argument.value
    return ⟨names.head?.map identifier, value⟩ :: (← namedArguments names.tail rest)

/-- A call of a lowered callee. A closure at the end becomes a trailing lambda. Arguments are passed
by name if the names of the parameters are known and the call has labels. -/
def withArguments (callee : Kotlin.Node) (arguments : List (Argument Node))
    (names : Option (List String)) (range : Option SourceRange) : Lower Kotlin.Node := do
  let names := if arguments.any (·.label.isSome) then names.getD [] else []
  match arguments.getLast? with
  | some last =>
    if isClosure last.value then
      let trailing ← descent.value last.value
      let args ← namedArguments descent names arguments.dropLast
      return ⟨.call callee args (some trailing), range⟩
    else
      return ⟨.call callee (← namedArguments descent names arguments) none, range⟩
  | none => return ⟨.call callee [] none, range⟩

/-- A call of a method without arguments. -/
def method (receiver : Kotlin.Node) (name : String) (safe : Bool) (range : Option SourceRange) :
    Kotlin.Node :=
  .call ⟨.member receiver name safe, range⟩ [] range

/-! ## Printing -/

/-- Whether an argument of `print` keeps it from ending the line. -/
def suppressesLineEnd (argument : Argument Node) : Bool :=
  match argument.label, argument.value.construct with
  | some "terminator", .literal (.string "") => true
  | _, _ => false

/-- Warns of the arguments of `print` that have no counterpart. -/
def warnOfDropped (argument : Argument Node) : Lower Unit :=
  match argument.label with
  | some label =>
    if suppressesLineEnd argument then pure ()
    else warn (.droppedPrintArgument label) argument.value.range
  | none => pure ()

/-- The values of several arguments in one template, with blanks between them. -/
def spacedParts : List Kotlin.Node → List (Kotlin.TemplatePart Kotlin.Node)
  | [] => []
  | [value] => [.expr value]
  | value :: rest => .expr value :: .text " " :: spacedParts rest

def print (arguments : List (Argument Node)) (range : Option SourceRange) : Lower Kotlin.Node := do
  arguments.forM warnOfDropped
  let function := if arguments.any suppressesLineEnd then "print" else "println"
  let values ← ((arguments.filter (·.label.isNone)).map Argument.value).mapM descent.value
  let args : List Kotlin.Node := match values with
    | [] => []
    | [value] => [value]
    | values => [⟨.template (spacedParts values), range⟩]
  return .call (.reference function range) args range

/-! ## Constructors and cases -/

/-- Whether a call looks up a case of an enumeration by its raw value. -/
def isRawValueLookup (types : DeclaredTypes) (name : String) (arguments : List (Argument Node)) :
    Bool :=
  labels arguments == [some "rawValue"] && (types.enum? name).map enumForm == some .enumClass

/-- The first entry of an enumeration whose raw value is the given one. -/
def rawValueLookup (enum : String) (value : Kotlin.Node) (range : Option SourceRange) :
    Kotlin.Node :=
  let entries := method (.reference (identifier enum) range) "values" false range
  let test : Kotlin.Node :=
    .binary .eq (.member (.reference "it" range) "rawValue" range) value range
  ⟨.call (.member entries "firstOrNull" range) [] (some ⟨.lambda [] [test], range⟩), range⟩

/-- A call of a declared type. -/
def construction (name : String) (callee : Node) (arguments : List (Argument Node))
    (range : Option SourceRange) : Lower Kotlin.Node := do
  let types ← types
  let resolved := types.resolve name
  if isRawValueLookup types resolved arguments then
    match arguments with
    | argument :: _ => return rawValueLookup resolved (← descent.value argument.value) range
    | [] => pure ()
  withArguments descent (.reference (identifier name) callee.range) arguments
    (types.argumentNames resolved (labels arguments)) range

/-- The construction of an enum case. -/
def caseConstruction (enum case : String) (callee : Node) (arguments : List (Argument Node))
    (range : Option SourceRange) : Lower Kotlin.Node := do
  let names := (← types).caseArgumentNames enum case (labels arguments)
  let callee ← caseReference enum case callee.range
  withArguments descent callee arguments names range

/-! ## Conversions and methods -/

def isText (node : Node) : Lower Bool := do
  return (← typeOf node).any Swift.Ty.isText

/-- A conversion of one value between built-in types. -/
def converted (convert read : String) (value : Node) (range : Option SourceRange) :
    Lower Kotlin.Node := do
  let function := if ← isText value then read else convert
  return method (← descent.value value) function false range

/-- A method whose Kotlin counterpart has another name or another order of arguments. -/
def knownMethod (form : MethodForm) (base : Node) (arguments : List (Argument Node))
    (range : Option SourceRange) : Lower Kotlin.Node := do
  let (target, safe) := chainTarget base
  let receiver ← descent.value target
  let callee : Kotlin.Node := ⟨.member receiver form.name safe, range⟩
  if form.reversed then
    let values ← (arguments.reverse.map Argument.value).mapM descent.kept
    return .call callee values range
  else
    withArguments descent callee (arguments.map fun argument => { argument with label := none })
      none range

/-- Any other call. -/
def plain (callee : Node) (arguments : List (Argument Node)) (range : Option SourceRange) :
    Lower Kotlin.Node := do
  withArguments descent (← descent.value callee) arguments none range

/-- A call of something that has a name. -/
def ofName (name : String) (callee : Node) (arguments : List (Argument Node))
    (range : Option SourceRange) : Lower Kotlin.Node := do
  if (← types).isType name then construction descent name callee arguments range
  else if name = "print" then print descent arguments range
  else match conversion? name, arguments with
    | some (convert, read), [⟨none, value⟩] => converted descent convert read value range
    | _, _ => plain descent callee arguments range

/-- A call of a member. -/
def ofMember (base : Node) (name : String) (callee : Node) (arguments : List (Argument Node))
    (range : Option SourceRange) : Lower Kotlin.Node := do
  match ← casePattern callee with
  | some (enum, case) => caseConstruction descent enum case callee arguments range
  | none =>
    match methodForm? name (labels arguments) (← isText (chainTarget base).1) with
    | some form => knownMethod descent form base arguments range
    | none => plain descent callee arguments range

/-- A call of a bare case. -/
def ofImplicitMember (callee : Node) (arguments : List (Argument Node))
    (range : Option SourceRange) : Lower Kotlin.Node := do
  match ← casePattern callee with
  | some (enum, case) => caseConstruction descent enum case callee arguments range
  | none => plain descent callee arguments range

def lower (callee : Node) (arguments : List (Argument Node)) (range : Option SourceRange) :
    Lower Kotlin.Node :=
  match callee.construct with
  | .reference name _ => ofName descent name callee arguments range
  | .member base name => ofMember descent base name callee arguments range
  | .implicitMember _ _ => ofImplicitMember descent callee arguments range
  | _ => plain descent callee arguments range

end Call

end SwiftToKotlin.Lowering
