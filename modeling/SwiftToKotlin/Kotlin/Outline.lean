import SwiftToKotlin.Kotlin.Node
import SwiftToKotlin.Text.Quoted
import SwiftToKotlin.Tree

/-! # Drawings of Kotlin trees -/

namespace SwiftToKotlin.Kotlin

namespace Outline

open SwiftToKotlin.Tree (leaf field group)

def part (label : String) (tree : Tree) : Option Tree :=
  some ⟨label, [some tree]⟩

def optionalPart (label : String) (tree : Option Tree) : Option Tree :=
  tree.bind (part label)

def optionalTy (name : String) (ty : Option Ty) : Option Tree :=
  ty.map fun ty => field name ty.display

def body (label : String) (trees : Option (List Tree)) : Option Tree :=
  trees.bind (group label)

/-- A field of words, unless there are none. -/
def words (name separator : String) (list : List String) : Option Tree :=
  if list.isEmpty then none else some (field name (separator.intercalate list))

def modifiers (list : List Modifier) : Option Tree :=
  words "modifiers" " " (list.map Modifier.keyword)

def paramLabel (param : Param Tree) : String :=
  match param.binding with
  | some binding => s!"{binding.keyword} {param.name}: {param.ty.display}"
  | none => s!"{param.name}: {param.ty.display}"

def params (list : List (Param Tree)) : Option Tree :=
  group "parameters"
    (list.map fun param => ⟨paramLabel param, [optionalPart "default" param.defaultValue]⟩)

def entries (list : List (EnumEntry Tree)) : Option Tree :=
  group "entries" (list.map fun entry => ⟨entry.name, entry.args.map some⟩)

def whenCondition : WhenCondition Tree → Tree
  | .value value => value
  | .is ty => field "is" ty.display

def whenBranch (branch : WhenBranch Tree) : Option Tree :=
  some ⟨if branch.conditions.isEmpty then "else" else "branch",
    [group "conditions" (branch.conditions.map whenCondition), group "body" branch.body]⟩

def catchBlock (block : CatchBlock Tree) : Option Tree :=
  some ⟨s!"catch {block.name}: {block.ty.display}", block.body.map some⟩

def literal : Literal → String
  | .int text => text
  | .double text => text
  | .bool value => if value then "true" else "false"
  | .string text => Text.quoted text
  | .null => "null"

def templatePart : TemplatePart Tree → Option Tree
  | .text text => some (field "text" (Text.quoted text))
  | .expr value => some value

def argument (argument : Argument Tree) : Option Tree :=
  match argument.name with
  | some name => part s!"argument {name}" argument.value
  | none => part "argument" argument.value

/-- What is drawn below the label of a construct. -/
def details : Construct Tree → List (Option Tree)
  | .file items => items.map some
  | .comment text => [some (field "text" text)]
  | .importModule name => [some (field "module" name)]
  | .function decl =>
    [some (field "name" decl.name), optionalTy "receiver" decl.receiver,
      modifiers decl.modifiers, params decl.params, optionalTy "return type" decl.returnType,
      body "body" decl.body]
  | .property decl =>
    [some (field "name" decl.name), some (field "binding" decl.binding.keyword),
      optionalTy "receiver" decl.receiver, modifiers decl.modifiers, optionalTy "type" decl.ty,
      optionalPart "initializer" decl.init, body "get" decl.getter, body "set" decl.setter]
  | .classDef decl =>
    [some (field "name" decl.name), some (field "kind" decl.kind.keyword),
      modifiers decl.modifiers, params decl.params,
      words "supertypes" ", " (decl.supertypes.map Supertype.name), entries decl.entries,
      group "members" decl.members]
  | .secondaryConstructor list statements => [params list, group "body" statements]
  | .companionObject members => members.map some
  | .typeAlias name ty => [some (field "name" name), some (field "type" ty.display)]
  | .returnStmt value => [value]
  | .ifStmt condition thenBranch elseBranch =>
    [part "condition" condition, group "then" thenBranch, body "else" elseBranch]
  | .whileStmt condition statements => [part "condition" condition, group "body" statements]
  | .doWhile statements condition => [part "condition" condition, group "body" statements]
  | .forStmt binder iterable statements =>
    [some (field "variable" binder), part "iterable" iterable, group "body" statements]
  | .whenStmt subject branches => optionalPart "subject" subject :: branches.map whenBranch
  | .breakStmt => []
  | .continueStmt => []
  | .throwStmt value => [some value]
  | .tryCatch statements catches => group "try" statements :: catches.map catchBlock
  | .assign op target value =>
    [some (field "operator" op.symbol), part "target" target, part "value" value]
  | .literal value => [some (leaf (literal value))]
  | .template parts => parts.map templatePart
  | .reference name => [some (field "name" name)]
  | .binary op lhs rhs => [some (field "operator" op.symbol), some lhs, some rhs]
  | .unary op operand => [some (field "operator" op.symbol), some operand]
  | .notNullAssert value => [some value]
  | .call callee args trailingLambda =>
    part "callee" callee :: args.map argument ++ [optionalPart "trailing lambda" trailingLambda]
  | .member base name safe =>
    [some (field "name" name), if safe then some (leaf "safe") else none, part "base" base]
  | .index base position => [part "base" base, part "index" position]
  | .lambda names statements => [words "parameters" ", " names, group "body" statements]
  | .ifExpr condition thenValue elseValue =>
    [part "condition" condition, part "then" thenValue, part "else" elseValue]
  | .cast kind value ty =>
    [some (field "operator" kind.keyword), some (field "type" ty.display), some value]

end Outline

def Node.outline (node : Node) : Tree :=
  node.fold fun construct _ => ⟨construct.label, Outline.details construct⟩

end SwiftToKotlin.Kotlin
