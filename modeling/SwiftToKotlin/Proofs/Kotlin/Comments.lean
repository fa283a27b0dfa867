import SwiftToKotlin.Kotlin.Node

/-!
# The comments of a Kotlin tree

Every comment of a tree, at any depth, with its place. The comments of a node are its own and those
of its parts.
-/

namespace SwiftToKotlin.Kotlin

variable {α β : Type}

/-! ## The parts of a layer -/

def Param.parts (param : Param α) : List α :=
  param.defaultValue.toList

@[simp] def FunctionDef.parts (decl : FunctionDef α) : List α :=
  decl.params.flatMap Param.parts ++ decl.body.getD []

@[simp] def PropertyDef.parts (decl : PropertyDef α) : List α :=
  decl.init.toList ++ decl.getter.getD [] ++ decl.setter.getD []

@[simp] def ClassDef.parts (decl : ClassDef α) : List α :=
  decl.params.flatMap Param.parts ++ decl.entries.flatMap EnumEntry.args ++ decl.members

def WhenCondition.parts : WhenCondition α → List α
  | value a => [a]
  | is _ => []

def WhenBranch.parts (branch : WhenBranch α) : List α :=
  branch.conditions.flatMap WhenCondition.parts ++ branch.body

def TemplatePart.parts : TemplatePart α → List α
  | text _ => []
  | expr a => [a]

@[simp] def Construct.parts : Construct α → List α
  | file items => items
  | comment _ => []
  | importModule _ => []
  | function decl => decl.parts
  | property decl => decl.parts
  | classDef decl => decl.parts
  | secondaryConstructor params body => params.flatMap Param.parts ++ body
  | companionObject members => members
  | typeAlias _ _ => []
  | returnStmt value => value.toList
  | ifStmt condition thenBranch elseBranch => condition :: thenBranch ++ elseBranch.getD []
  | whileStmt condition body => condition :: body
  | doWhile body condition => body ++ [condition]
  | forStmt _ iterable body => iterable :: body
  | whenStmt subject branches => subject.toList ++ branches.flatMap WhenBranch.parts
  | breakStmt => []
  | continueStmt => []
  | throwStmt value => [value]
  | tryCatch body catches => body ++ catches.flatMap CatchBlock.body
  | assign _ target value => [target, value]
  | literal _ => []
  | template parts => parts.flatMap TemplatePart.parts
  | reference _ => []
  | binary _ lhs rhs => [lhs, rhs]
  | unary _ operand => [operand]
  | notNullAssert value => [value]
  | call callee args trailingLambda => callee :: args.map Argument.value ++ trailingLambda.toList
  | member base _ _ => [base]
  | index base position => [base, position]
  | lambda _ body => body
  | ifExpr condition thenValue elseValue => [condition, thenValue, elseValue]
  | cast _ value _ => [value]

theorem Param.parts_map (f : α → β) (param : Param α) :
    (param.map f).parts = param.parts.map f := by
  cases h : param.defaultValue <;> simp [Param.map, Param.parts, h]

theorem WhenCondition.parts_map (f : α → β) (condition : WhenCondition α) :
    (condition.map f).parts = condition.parts.map f := by
  cases condition <;> rfl

theorem TemplatePart.parts_map (f : α → β) (part : TemplatePart α) :
    (part.map f).parts = part.parts.map f := by
  cases part <;> rfl

theorem Construct.parts_map (f : α → β) (construct : Construct α) :
    (construct.map f).parts = construct.parts.map f := by
  have bodies (body : Option (List α)) :
      (body.map (List.map f)).getD [] = (body.getD []).map f := by cases body <;> rfl
  cases construct <;>
    simp [Construct.map, FunctionDef.map, PropertyDef.map, ClassDef.map, EnumEntry.map,
      WhenBranch.map, WhenBranch.parts, CatchBlock.map, Argument.map, bodies, List.flatMap_map,
      List.map_flatMap, Option.toList_map, Param.parts_map, WhenCondition.parts_map,
      TemplatePart.parts_map]

/-! ## Comments -/

/-- The text of a comment and its place. -/
abbrev Note :=
  String × Option SourceRange

/-- What a layer notes itself. -/
@[simp] def Construct.note (range : Option SourceRange) : Construct α → List Note
  | comment text => [(text, range)]
  | _ => []

theorem Construct.note_map (f : α → β) (range) (construct : Construct α) :
    (construct.map f).note range = construct.note range := by
  cases construct <;> rfl

namespace Node

/-- The comments of a tree from the root on. -/
def comments (node : Node) : List Note :=
  node.para fun construct range => construct.note range ++ construct.parts.flatMap Prod.snd

end Node

/-- The comments of a list of trees. -/
def notes (nodes : List Node) : List Note :=
  nodes.flatMap Node.comments

@[simp] theorem notes_nil : notes [] = [] :=
  rfl

@[simp] theorem notes_cons (node : Node) (rest) :
    notes (node :: rest) = node.comments ++ notes rest :=
  rfl

@[simp] theorem notes_append (nodes more) : notes (nodes ++ more) = notes nodes ++ notes more :=
  List.flatMap_append

namespace Node

@[simp] theorem comments_mk (construct range) :
    comments ⟨construct, range⟩ = construct.note range ++ notes construct.parts := by
  rw [comments, para_mk, Construct.parts_map, Construct.note_map, List.flatMap_map]
  rfl

@[simp] theorem comments_comment (text : String) (range) :
    (comment text range).comments = [(text, range)] := by
  simp [comment]

@[simp] theorem comments_reference (name : String) (range) :
    (reference name range).comments = [] := by
  simp [reference]

end Node

end SwiftToKotlin.Kotlin
