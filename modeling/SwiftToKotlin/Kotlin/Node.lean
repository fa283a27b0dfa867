import SwiftToKotlin.Kotlin.Construct

/-! # Kotlin syntax trees

A node is a construct over nodes with the place it comes from. Functions on trees are given by what
they do to one layer, with the parts at hand next to their values.
-/

namespace SwiftToKotlin.Kotlin

structure Node where
  construct : Construct Node
  range : Option SourceRange

namespace Node

section Recursion

variable {β : Type} (alg : Construct (Node × β) → Option SourceRange → β)

mutual

/-- The value of a tree, from its parts and their values upwards. -/
def para : Node → β
  | ⟨construct, range⟩ => alg (paraConstruct construct) range

def paraConstruct : Construct Node → Construct (Node × β)
  | .file items => .file (paraList items)
  | .comment text => .comment text
  | .importModule name => .importModule name
  | .function decl => .function (paraFunction decl)
  | .property decl => .property (paraProperty decl)
  | .classDef decl => .classDef (paraClass decl)
  | .secondaryConstructor params body => .secondaryConstructor (paraParams params) (paraList body)
  | .companionObject members => .companionObject (paraList members)
  | .typeAlias name ty => .typeAlias name ty
  | .returnStmt value => .returnStmt (paraOption value)
  | .ifStmt condition thenBranch elseBranch =>
    .ifStmt (condition, para condition) (paraList thenBranch) (paraBody elseBranch)
  | .whileStmt condition body => .whileStmt (condition, para condition) (paraList body)
  | .doWhile body condition => .doWhile (paraList body) (condition, para condition)
  | .forStmt binder iterable body => .forStmt binder (iterable, para iterable) (paraList body)
  | .whenStmt subject branches => .whenStmt (paraOption subject) (paraBranches branches)
  | .breakStmt => .breakStmt
  | .continueStmt => .continueStmt
  | .throwStmt value => .throwStmt (value, para value)
  | .tryCatch body catches => .tryCatch (paraList body) (paraCatches catches)
  | .assign op target value => .assign op (target, para target) (value, para value)
  | .literal value => .literal value
  | .template parts => .template (paraTemplate parts)
  | .reference name => .reference name
  | .binary op lhs rhs => .binary op (lhs, para lhs) (rhs, para rhs)
  | .unary op operand => .unary op (operand, para operand)
  | .notNullAssert value => .notNullAssert (value, para value)
  | .call callee args trailingLambda =>
    .call (callee, para callee) (paraArguments args) (paraOption trailingLambda)
  | .member base name safe => .member (base, para base) name safe
  | .index base index => .index (base, para base) (index, para index)
  | .lambda params body => .lambda params (paraList body)
  | .ifExpr condition thenValue elseValue =>
    .ifExpr (condition, para condition) (thenValue, para thenValue) (elseValue, para elseValue)
  | .cast kind value ty => .cast kind (value, para value) ty

def paraList : List Node → List (Node × β)
  | [] => []
  | node :: rest => (node, para node) :: paraList rest

def paraOption : Option Node → Option (Node × β)
  | none => none
  | some node => some (node, para node)

def paraBody : Option (List Node) → Option (List (Node × β))
  | none => none
  | some body => some (paraList body)

def paraParam : Param Node → Param (Node × β)
  | ⟨name, ty, defaultValue, binding⟩ => ⟨name, ty, paraOption defaultValue, binding⟩

def paraParams : List (Param Node) → List (Param (Node × β))
  | [] => []
  | param :: rest => paraParam param :: paraParams rest

def paraFunction : FunctionDef Node → FunctionDef (Node × β)
  | ⟨name, receiver, params, returnType, body, modifiers⟩ =>
    ⟨name, receiver, paraParams params, returnType, paraBody body, modifiers⟩

def paraProperty : PropertyDef Node → PropertyDef (Node × β)
  | ⟨name, binding, ty, receiver, init, getter, setter, modifiers⟩ =>
    ⟨name, binding, ty, receiver, paraOption init, paraBody getter, paraBody setter, modifiers⟩

def paraEntry : EnumEntry Node → EnumEntry (Node × β)
  | ⟨name, args⟩ => ⟨name, paraList args⟩

def paraEntries : List (EnumEntry Node) → List (EnumEntry (Node × β))
  | [] => []
  | entry :: rest => paraEntry entry :: paraEntries rest

def paraClass : ClassDef Node → ClassDef (Node × β)
  | ⟨name, kind, params, supertypes, entries, members, modifiers⟩ =>
    ⟨name, kind, paraParams params, supertypes, paraEntries entries, paraList members, modifiers⟩

def paraCondition : WhenCondition Node → WhenCondition (Node × β)
  | .value value => .value (value, para value)
  | .is ty => .is ty

def paraConditions : List (WhenCondition Node) → List (WhenCondition (Node × β))
  | [] => []
  | condition :: rest => paraCondition condition :: paraConditions rest

def paraBranch : WhenBranch Node → WhenBranch (Node × β)
  | ⟨conditions, body⟩ => ⟨paraConditions conditions, paraList body⟩

def paraBranches : List (WhenBranch Node) → List (WhenBranch (Node × β))
  | [] => []
  | branch :: rest => paraBranch branch :: paraBranches rest

def paraCatch : CatchBlock Node → CatchBlock (Node × β)
  | ⟨name, ty, body⟩ => ⟨name, ty, paraList body⟩

def paraCatches : List (CatchBlock Node) → List (CatchBlock (Node × β))
  | [] => []
  | block :: rest => paraCatch block :: paraCatches rest

def paraPart : TemplatePart Node → TemplatePart (Node × β)
  | .text text => .text text
  | .expr value => .expr (value, para value)

def paraTemplate : List (TemplatePart Node) → List (TemplatePart (Node × β))
  | [] => []
  | part :: rest => paraPart part :: paraTemplate rest

def paraArgument : Argument Node → Argument (Node × β)
  | ⟨name, value⟩ => ⟨name, (value, para value)⟩

def paraArguments : List (Argument Node) → List (Argument (Node × β))
  | [] => []
  | argument :: rest => paraArgument argument :: paraArguments rest

end

/-! ## The recursion is mapping, layer by layer -/

/-- A part next to its value. -/
abbrev withValue (node : Node) : Node × β :=
  (node, para alg node)

theorem paraList_eq_map (nodes : List Node) : paraList alg nodes = nodes.map (withValue alg) := by
  induction nodes with
  | nil => simp [paraList]
  | cons node rest ih => simp [paraList, ih]

theorem paraOption_eq_map (node : Option Node) :
    paraOption alg node = node.map (withValue alg) := by
  cases node <;> simp [paraOption]

theorem paraBody_eq_map (body : Option (List Node)) :
    paraBody alg body = body.map (List.map (withValue alg)) := by
  cases body <;> simp [paraBody, paraList_eq_map]

theorem paraParams_eq_map (params : List (Param Node)) :
    paraParams alg params = params.map (Param.map (withValue alg)) := by
  induction params with
  | nil => simp [paraParams]
  | cons param rest ih =>
    cases param
    simp [paraParams, paraParam, Param.map, paraOption_eq_map, ih]

theorem paraEntries_eq_map (entries : List (EnumEntry Node)) :
    paraEntries alg entries = entries.map (EnumEntry.map (withValue alg)) := by
  induction entries with
  | nil => simp [paraEntries]
  | cons entry rest ih =>
    cases entry
    simp [paraEntries, paraEntry, EnumEntry.map, paraList_eq_map, ih]

theorem paraConditions_eq_map (conditions : List (WhenCondition Node)) :
    paraConditions alg conditions = conditions.map (WhenCondition.map (withValue alg)) := by
  induction conditions with
  | nil => simp [paraConditions]
  | cons condition rest ih =>
    cases condition <;> simp [paraConditions, paraCondition, WhenCondition.map, ih]

theorem paraBranches_eq_map (branches : List (WhenBranch Node)) :
    paraBranches alg branches = branches.map (WhenBranch.map (withValue alg)) := by
  induction branches with
  | nil => simp [paraBranches]
  | cons branch rest ih =>
    cases branch
    simp [paraBranches, paraBranch, WhenBranch.map, paraConditions_eq_map, paraList_eq_map, ih]

theorem paraCatches_eq_map (catches : List (CatchBlock Node)) :
    paraCatches alg catches = catches.map (CatchBlock.map (withValue alg)) := by
  induction catches with
  | nil => simp [paraCatches]
  | cons block rest ih =>
    cases block
    simp [paraCatches, paraCatch, CatchBlock.map, paraList_eq_map, ih]

theorem paraTemplate_eq_map (parts : List (TemplatePart Node)) :
    paraTemplate alg parts = parts.map (TemplatePart.map (withValue alg)) := by
  induction parts with
  | nil => simp [paraTemplate]
  | cons part rest ih => cases part <;> simp [paraTemplate, paraPart, TemplatePart.map, ih]

theorem paraArguments_eq_map (arguments : List (Argument Node)) :
    paraArguments alg arguments = arguments.map (Argument.map (withValue alg)) := by
  induction arguments with
  | nil => simp [paraArguments]
  | cons argument rest ih =>
    cases argument
    simp [paraArguments, paraArgument, Argument.map, ih]

theorem paraConstruct_eq_map (construct : Construct Node) :
    paraConstruct alg construct = construct.map (withValue alg) := by
  cases construct with
  | function decl =>
    cases decl
    simp [paraConstruct, Construct.map, paraFunction, FunctionDef.map, paraParams_eq_map,
      paraBody_eq_map]
  | property decl =>
    cases decl
    simp [paraConstruct, Construct.map, paraProperty, PropertyDef.map, paraOption_eq_map,
      paraBody_eq_map]
  | classDef decl =>
    cases decl
    simp [paraConstruct, Construct.map, paraClass, ClassDef.map, paraParams_eq_map,
      paraEntries_eq_map, paraList_eq_map]
  | _ =>
    simp [paraConstruct, Construct.map, paraList_eq_map, paraOption_eq_map, paraBody_eq_map,
      paraParams_eq_map, paraBranches_eq_map, paraCatches_eq_map, paraTemplate_eq_map,
      paraArguments_eq_map]

@[simp] theorem para_mk (construct : Construct Node) (range : Option SourceRange) :
    para alg ⟨construct, range⟩ = alg (construct.map (withValue alg)) range := by
  rw [para, paraConstruct_eq_map]

end Recursion

/-- The value of a tree, from the values of its parts upwards. -/
def fold {β : Type} (alg : Construct β → Option SourceRange → β) (node : Node) : β :=
  node.para fun construct range => alg (construct.map Prod.snd) range

/-! ## Small trees -/

def reference (name : String) (range : Option SourceRange) : Node :=
  ⟨.reference name, range⟩

def comment (text : String) (range : Option SourceRange) : Node :=
  ⟨.comment text, range⟩

def literal (value : Literal) (range : Option SourceRange) : Node :=
  ⟨.literal value, range⟩

def member (base : Node) (name : String) (range : Option SourceRange) : Node :=
  ⟨.member base name false, range⟩

/-- A call with arguments by position. -/
def call (callee : Node) (args : List Node) (range : Option SourceRange) : Node :=
  ⟨.call callee (args.map fun value => ⟨none, value⟩) none, range⟩

def binary (op : BinaryOp) (lhs rhs : Node) (range : Option SourceRange) : Node :=
  ⟨.binary op lhs rhs, range⟩

def isComment (node : Node) : Bool :=
  match node.construct with
  | .comment _ => true
  | _ => false

end Node

end SwiftToKotlin.Kotlin
