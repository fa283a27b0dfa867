import SwiftToKotlin.Swift.Node
import SwiftToKotlin.Swift.Tag
import SwiftToKotlin.Text.Quoted
import SwiftToKotlin.Tree

/-! # Drawings of Swift trees -/

namespace SwiftToKotlin.Swift

namespace Outline

open SwiftToKotlin.Tree (leaf field group)

def flag (name : String) (set : Bool) : Option Tree :=
  if set then some (leaf name) else none

def part (label : String) (tree : Tree) : Option Tree :=
  some ⟨label, [some tree]⟩

def optionalPart (label : String) (tree : Option Tree) : Option Tree :=
  tree.bind (part label)

def optionalField (name : String) (value : Option String) : Option Tree :=
  value.map (field name)

def body (label : String) (trees : Option (List Tree)) : Option Tree :=
  trees.bind (group label)

def paramLabel (param : Param Tree) : String :=
  match param.label with
  | some label =>
    if label = param.name then s!"{param.name}: {param.ty.display}"
    else s!"{label} {param.name}: {param.ty.display}"
  | none => s!"_ {param.name}: {param.ty.display}"

def params (list : List (Param Tree)) : Option Tree :=
  group "parameters"
    (list.map fun param => ⟨paramLabel param, [optionalPart "default" param.defaultValue]⟩)

def condition : Condition Tree → Option Tree
  | .expr value => part "condition" value
  | .binding name value _ => some ⟨"optional binding", [some (field "name" name), some value]⟩

def accessor (accessor : Accessor Tree) : Option Tree :=
  let label := match accessor.kind with
    | .get => "get"
    | .set => "set"
  some ⟨label, (accessor.body.getD []).map some⟩

def switchCase (case : SwitchCase Tree) : Option Tree :=
  some ⟨if case.patterns.isEmpty then "default" else "case",
    [group "patterns" case.patterns, group "body" case.body]⟩

def catchClause (clause : CatchClause Tree) : Option Tree :=
  some ⟨"catch",
    [optionalField "name" clause.name, optionalField "type" (clause.ty.map Ty.display),
      group "body" clause.body]⟩

def argument (argument : Argument Tree) : Option Tree :=
  match argument.label with
  | some label => part s!"argument {label}" argument.value
  | none => part "argument" argument.value

def castOperator : CastKind → String
  | .coerce => "as"
  | .conditional => "as?"
  | .forced => "as!"
  | .check => "is"

def literal : Literal → List (Option Tree)
  | .integer text => [some (field "value" text)]
  | .float text => [some (field "value" text)]
  | .boolean value => [some (field "value" (if value then "true" else "false"))]
  | .string text => [some (field "value" (Text.quoted text))]
  | .nil => []

/-- What is drawn below the label of a construct. -/
def details : Construct Tree → List (Option Tree)
  | .file items => items.map some
  | .importModule name => [some (field "module" name)]
  | .function decl =>
    [some (field "name" decl.name), flag "static" decl.isStatic, flag "mutating" decl.isMutating,
      flag "throws" decl.throws, flag "override" decl.isOverride, params decl.params,
      optionalField "result" (decl.result.map Ty.display), body "body" decl.body]
  | .initializer list statements => [params list, body "body" statements]
  | .variableDecl decl =>
    [some (field "name" decl.name), flag "let" decl.isLet, flag "static" decl.isStatic,
      optionalField "type" (decl.ty.map Ty.display), optionalPart "initializer" decl.init]
      ++ decl.accessors.map accessor
  | .typeDecl _ decl =>
    [some (field "name" decl.name),
      if decl.inherits.isEmpty then none
      else some (field "inherits" (", ".intercalate decl.inherits)),
      group "members" decl.members]
  | .enumCase decl =>
    [some (field "name" decl.name), params decl.params, optionalPart "raw value" decl.rawValue]
  | .extensionDecl extended members => [some (field "type" extended), group "members" members]
  | .typeAlias name ty => [some (field "name" name), some (field "type" ty.display)]
  | .block items => items.map some
  | .returnStmt value => [value]
  | .ifStmt test thenBranch elseBranch =>
    [condition test, group "then" thenBranch, optionalPart "else" elseBranch]
  | .guardStmt test elseBranch => [condition test, group "else" elseBranch]
  | .whileStmt test statements => [part "condition" test, group "body" statements]
  | .repeatWhile statements test => [part "condition" test, group "body" statements]
  | .forEach binder sequence statements =>
    [some (field "variable" binder), part "sequence" sequence, group "body" statements]
  | .switchStmt subject cases => part "subject" subject :: cases.map switchCase
  | .breakStmt => []
  | .continueStmt => []
  | .throwStmt value => [some value]
  | .deferStmt statements => statements.map some
  | .doCatch statements catches => group "do" statements :: catches.map catchClause
  | .literal value => literal value
  | .interpolated segments => segments.map some
  | .reference name ty =>
    [some (field "name" name), optionalField "type" (ty.map Ty.display)]
  | .binary operator lhs rhs => [some (field "operator" operator), some lhs, some rhs]
  | .prefixUnary operator operand => [some (field "operator" operator), some operand]
  | .assign target value => [part "target" target, part "value" value]
  | .call callee arguments => part "callee" callee :: arguments.map argument
  | .member base name => [some (field "name" name), part "base" base]
  | .implicitMember name ty =>
    [some (field "name" name), optionalField "type" (ty.map Ty.display)]
  | .subscript base index => [part "base" base, part "index" index]
  | .arrayLiteral items => items.map some
  | .dictionaryLiteral entries =>
    entries.map fun (key, value) => some ⟨"entry", [part "key" key, part "value" value]⟩
  | .tuple items => items.map some
  | .closure names statements =>
    [if names.isEmpty then none else some (field "parameters" (", ".intercalate names)),
      group "body" statements]
  | .ternary test thenValue elseValue =>
    [part "condition" test, part "then" thenValue, part "else" elseValue]
  | .wrapped _ inner => [some inner]
  | .cast kind value ty =>
    [some (field "operator" (castOperator kind)), some (field "type" ty.display), some value]
  | .invalid kind flaw => [some (field "kind" kind), some (field "reason" flaw.message)]
  | .unknown kind children => some (field "kind" kind) :: children.map some

end Outline

def Node.outline (node : Node) : Tree :=
  node.fold fun construct _ => ⟨construct.tag.label, Outline.details construct⟩

end SwiftToKotlin.Swift
