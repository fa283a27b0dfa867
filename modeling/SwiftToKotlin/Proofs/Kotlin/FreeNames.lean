import SwiftToKotlin.Proofs.Kotlin.Occurrence

/-!
# Free names

A name is free in a tree if it is used there and nothing around the use declares it: no parameter of
a function or of a lambda, no declaration before it in its block, no variable of a loop. A lambda
that is the test of `firstOrNull` has the parameter `it` even if it names no parameters.
-/

namespace SwiftToKotlin.Kotlin

variable {α : Type}

/-! ## What declares a name -/

/-- The statement declares the name for what follows it. -/
def Construct.declares (name : String) : Construct α → Bool
  | property decl => decl.name == name
  | function decl => decl.name == name
  | classDef decl => decl.name == name
  | _ => false

/-- The lambda takes a parameter without naming it. -/
def isTest (callee lambda : Node) : Bool :=
  match callee.construct, lambda.construct with
  | .member _ "firstOrNull" _, .lambda [] _ => true
  | _, _ => false

section Layer

variable (name : String)

/-- Free in a block, from whether the name is free in its statements. -/
def isFreeInBlock : List (Node × Bool) → Bool
  | [] => false
  | statement :: rest => statement.2 || (!statement.1.construct.declares name && isFreeInBlock rest)

/-- Free among members, which know each other in any order. -/
def isFreeInMembers (members : List (Node × Bool)) : Bool :=
  members.any Prod.snd && !members.any (·.1.construct.declares name)

/-- Free below parameters, each of which is known to those behind it. -/
def isFreeBelow : List (Param (Node × Bool)) → Bool → Bool
  | [], inner => inner
  | param :: rest, inner =>
    param.defaultValue.any Prod.snd || (param.name != name && isFreeBelow rest inner)

def WhenCondition.isFree : WhenCondition (Node × Bool) → Bool
  | value part => part.2
  | is _ => false

def TemplatePart.isFree : TemplatePart (Node × Bool) → Bool
  | text _ => false
  | expr part => part.2

/-- Whether the name is free in a construct, from whether it is free in the parts. -/
def Construct.isFree : Construct (Node × Bool) → Bool
  | file items => isFreeInMembers name items
  | comment _ => false
  | importModule _ => false
  | function decl =>
    decl.name != name && isFreeBelow name decl.params (isFreeInBlock name (decl.body.getD []))
  | property decl =>
    decl.init.any Prod.snd || (decl.name != name &&
      (isFreeInBlock name (decl.getter.getD []) ||
        (name != "newValue" && isFreeInBlock name (decl.setter.getD []))))
  | classDef decl =>
    decl.name != name && isFreeBelow name decl.params
      (decl.entries.any (·.args.any Prod.snd) || isFreeInMembers name decl.members)
  | secondaryConstructor params body => isFreeBelow name params (isFreeInBlock name body)
  | companionObject members => isFreeInMembers name members
  | typeAlias _ _ => false
  | returnStmt value => value.any Prod.snd
  | ifStmt condition thenBranch elseBranch =>
    condition.2 || isFreeInBlock name thenBranch || isFreeInBlock name (elseBranch.getD [])
  | whileStmt condition body => condition.2 || isFreeInBlock name body
  -- the condition knows what the body declares
  | doWhile body condition => isFreeInBlock name (body ++ [condition])
  | forStmt binder iterable body => iterable.2 || (binder != name && isFreeInBlock name body)
  | whenStmt subject branches =>
    subject.any Prod.snd || branches.any fun branch =>
      branch.conditions.any WhenCondition.isFree || isFreeInBlock name branch.body
  | breakStmt => false
  | continueStmt => false
  | throwStmt value => value.2
  | tryCatch body catches =>
    isFreeInBlock name body ||
      catches.any fun handler => handler.name != name && isFreeInBlock name handler.body
  | assign _ target value => target.2 || value.2
  | literal _ => false
  | template parts => parts.any TemplatePart.isFree
  | reference used => used == name
  | binary _ lhs rhs => lhs.2 || rhs.2
  | unary _ operand => operand.2
  | notNullAssert value => value.2
  | call callee args trailing =>
    callee.2 || args.any (·.value.2) ||
      trailing.any fun lambda => lambda.2 && !(name == "it" && isTest callee.1 lambda.1)
  | member base _ _ => base.2
  | index base position => base.2 || position.2
  | lambda params body => !params.contains name && isFreeInBlock name body
  | ifExpr condition thenValue elseValue => condition.2 || thenValue.2 || elseValue.2
  | cast _ value _ => value.2

end Layer

/-! ## Trees -/

/-- Whether the name is free in the tree. -/
def Node.isFree (name : String) (node : Node) : Bool :=
  node.para fun construct _ => construct.isFree name

theorem Node.isFree_mk (name : String) (construct range) :
    isFree name ⟨construct, range⟩ =
      (construct.map fun part => (part, part.isFree name)).isFree name :=
  para_mk _ construct range

/-- The name is free in one of the trees. -/
def FreeAmong (name : String) (nodes : List Node) : Prop :=
  ∃ node ∈ nodes, node.isFree name = true

/-- The name that a construct begins with, from those that its parts begin with. -/
def Construct.head? : Construct (Option String) → Option String
  | reference name => some name
  | member base _ _ => base
  | call callee _ _ => callee
  | _ => none

/-- The name that an expression begins with. -/
def Node.head? (node : Node) : Option String :=
  node.fold fun construct _ => construct.head?

/-- The expression ends in a lambda that takes a parameter without naming it. -/
def Node.endsInTest (node : Node) : Bool :=
  match node.construct with
  | .call callee _ (some lambda) => isTest callee lambda
  | _ => false

variable {node : Node}

@[simp] theorem freeAmong_nil : ¬FreeAmong name [] := by
  rintro ⟨node, hnode, -⟩
  cases hnode

@[simp] theorem freeAmong_cons :
    FreeAmong name (node :: nodes) ↔ node.isFree name = true ∨ FreeAmong name nodes := by
  simp [FreeAmong]

@[simp] theorem freeAmong_append :
    FreeAmong name (nodes ++ more) ↔ FreeAmong name nodes ∨ FreeAmong name more := by
  simp only [FreeAmong, List.mem_append, or_and_right, exists_or]

/-! ## Constructs that declare nothing -/

/-- An expression without a name of its own that declares nothing for its parts. -/
def Construct.declaresNothing : Construct Node → Bool
  | comment _ | literal _ | template _ | binary .. | unary .. | notNullAssert _ | member ..
  | index .. | ifExpr .. | cast .. => true
  | call callee _ trailing => !trailing.any (isTest callee)
  | _ => false

attribute [local simp] Construct.map Construct.isFree

theorem Node.isFree_call {callee : Node} {trailing : Option Node} {range : Option SourceRange}
    (h : trailing.any (isTest callee) = false) :
    isFree name ⟨.call callee args trailing, range⟩ = true ↔
      FreeAmong name (Construct.call callee args trailing).parts := by
  rw [isFree_mk]
  cases trailing with
  | none => simp [FreeAmong, Argument.map]
  | some lambda =>
    rw [Option.any_some] at h
    simp [Argument.map, h, FreeAmong, or_assoc]

theorem Node.isFree_template {range : Option SourceRange} :
    isFree name ⟨.template parts, range⟩ = true ↔
      FreeAmong name (parts.flatMap TemplatePart.parts) := by
  rw [isFree_mk, Construct.map, Construct.isFree]
  induction parts with
  | nil => simp
  | cons part rest ih =>
    rw [List.map_cons, List.any_cons, Bool.or_eq_true, ih, List.flatMap_cons, freeAmong_append]
    cases part <;> simp [TemplatePart.map, TemplatePart.isFree, TemplatePart.parts]

theorem Node.isFree_of_declaresNothing {construct : Construct Node} {range : Option SourceRange}
    (h : construct.declaresNothing = true) :
    isFree name ⟨construct, range⟩ = true ↔ FreeAmong name construct.parts := by
  cases construct with
  | call callee args trailing => exact isFree_call (by simpa [Construct.declaresNothing] using h)
  | template parts => exact isFree_template
  | comment text | literal value | binary op lhs rhs | unary op operand | notNullAssert value
  | member base field safe | index base position | ifExpr condition thenValue elseValue
  | cast kind value ty => simp [isFree_mk, or_assoc]
  | _ => cases h

theorem Node.isFree_reference (used : String) (range) :
    isFree name (.reference used range) = true ↔ used = name := by
  simp [Node.reference, isFree_mk]

/-- A lambda without parameters around one statement. -/
theorem Node.isFree_thunk (range) : isFree name ⟨.lambda [] [node], range⟩ = node.isFree name := by
  simp [isFree_mk, isFreeInBlock]

theorem Node.head?_mk (construct range) : head? ⟨construct, range⟩ = (construct.map head?).head? :=
  fold_mk _ construct range

/-- What an expression begins with is free in it. -/
theorem Node.isFree_of_head? (h : node.head? = some name) : node.isFree name = true := by
  induction node using Node.induction with
  | step construct range ih =>
    cases construct with
    | reference used => exact (isFree_reference used range).2 (Option.some.inj h)
    | member base field safe =>
      exact ih base (by simp) h
    | call callee args trailing =>
      have hcallee := ih callee (by simp) h
      simp [isFree_mk, hcallee]
    | _ => cases h

theorem Node.isFree_reference_iff_head? (used : String) (range) :
    isFree name (.reference used range) = true ↔ head? (.reference used range) = some name := by
  rw [isFree_reference, Node.reference, head?_mk]
  simp [Construct.head?]

theorem Node.isFree_member_iff_head? (h : node.isFree name = true ↔ node.head? = some name)
    (field : String) (range) :
    isFree name (.member node field range) = true ↔
      head? (.member node field range) = some name := by
  exact h

/-! ## Trees around others -/

/-- No jump is put around the nodes. -/
abbrev HandsOn (made nodes : List Node) : Prop :=
  BuiltAround (fun node => node.construct.jump? = none) made nodes

/-- The nodes are built around `made`, and the name is free in them exactly if it is free there. -/
structure PassesOn (name : String) (made nodes : List Node) : Prop extends
    HandsOn made nodes where
  free : FreeAmong name nodes ↔ FreeAmong name made

namespace PassesOn

theorem refl (nodes) : PassesOn name nodes nodes :=
  ⟨.refl nodes, Iff.rfl⟩

theorem trans (h : PassesOn name made nodes) (h' : PassesOn name nodes more) :
    PassesOn name made more :=
  ⟨h.toBuiltAround.trans h'.toBuiltAround, h'.free.trans h.free⟩

theorem append (h : PassesOn name made nodes) (h' : PassesOn name others rest) :
    PassesOn name (made ++ others) (nodes ++ rest) where
  toBuiltAround := h.toBuiltAround.append h'.toBuiltAround
  free := by rw [freeAmong_append, freeAmong_append, h.free, h'.free]

theorem of_mem_iff (h : ∀ node, node ∈ nodes ↔ node ∈ made) : PassesOn name made nodes where
  toBuiltAround := .of_mem_iff h
  free := by simp only [FreeAmong, h]

theorem layer (hconstruct : construct.declaresNothing = true)
    (h : PassesOn name made construct.parts) :
    PassesOn name made [⟨construct, range⟩] where
  toBuiltAround := .layer (by cases construct <;> first | rfl | cases hconstruct) h.toBuiltAround
  free := by
    rw [freeAmong_cons, Node.isFree_of_declaresNothing hconstruct, h.free]
    simp

theorem around (hconstruct : construct.declaresNothing = true)
    (h : ∀ node, node ∈ construct.parts ↔ node ∈ made) :
    PassesOn name made [⟨construct, range⟩] :=
  layer hconstruct (of_mem_iff h)

theorem reference (h : used ≠ name) (range) :
    PassesOn name [] [.reference used range] where
  toBuiltAround := .around rfl (by simp)
  free := by simp [Node.isFree_reference, h]

theorem call (h : PassesOn name made [callee]) (args range) :
    PassesOn name (made ++ args) [.call callee args range] := by
  have hparts : (Construct.call callee (args.map (⟨none, ·⟩)) none).parts = [callee] ++ args := by
    simp [Function.comp_def]
  exact layer rfl (hparts ▸ h.append (refl args))

end PassesOn

end SwiftToKotlin.Kotlin
