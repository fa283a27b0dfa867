import SwiftToKotlin.Proofs.Kotlin.Comments
import SwiftToKotlin.Proofs.Kotlin.RoundTrip
import SwiftToKotlin.Proofs.Swift.Relocation

/-!
# Kotlin trees with other ranges

The text of a Kotlin tree is made of its constructs alone. A tree with other ranges is written in
the same way, character by character.
-/

namespace SwiftToKotlin.Kotlin

open Swift (optionMap_congr bodyMap_congr)

variable {α β : Type}

/-! ## Layers over other parts -/

section Congruence

/-- What a layer becomes depends on what happens to its parts only. -/
theorem Construct.map_congr {construct : Construct α}
    (h : ∀ part ∈ construct.parts, f part = g part) : construct.map f = construct.map g := by
  -- the same for the fields that have parts of their own
  have hparam (param : Param α) (h : ∀ part ∈ param.parts, f part = g part) :
      param.map f = param.map g := by
    simp [Param.map, optionMap_congr h]
  have hentry (entry : EnumEntry α) (h : ∀ part ∈ entry.args, f part = g part) :
      entry.map f = entry.map g := by
    simpa [EnumEntry.map] using h
  have hcondition (condition : WhenCondition α) (h : ∀ part ∈ condition.parts, f part = g part) :
      condition.map f = condition.map g := by
    cases condition <;> simp_all [WhenCondition.parts, WhenCondition.map]
  have hbranch (branch : WhenBranch α) (h : ∀ part ∈ branch.parts, f part = g part) :
      branch.map f = branch.map g := by
    simp [WhenBranch.parts, or_imp] at h
    simp [WhenBranch.map]
    grind
  have hcatch (block : CatchBlock α) (h : ∀ part ∈ block.body, f part = g part) :
      block.map f = block.map g := by
    simpa [CatchBlock.map] using h
  have hpart (part : TemplatePart α) (h : ∀ value ∈ part.parts, f value = g value) :
      part.map f = part.map g := by
    cases part <;> simp_all [TemplatePart.parts, TemplatePart.map]
  cases construct <;>
    simp [or_imp] at h <;>
    simp [map, FunctionDef.map, PropertyDef.map, ClassDef.map, Argument.map] <;>
    grind [optionMap_congr, bodyMap_congr]

end Congruence

theorem Construct.map_id (construct : Construct α) : construct.map id = construct := by
  have hparam : Param.map (id : α → α) = id := by
    funext param
    simp [Param.map]
  have hentry : EnumEntry.map (id : α → α) = id := by
    funext entry
    simp [EnumEntry.map]
  have hcondition : WhenCondition.map (id : α → α) = id := by
    funext condition
    cases condition <;> rfl
  have hbranch : WhenBranch.map (id : α → α) = id := by
    funext branch
    simp [WhenBranch.map, hcondition]
  have hcatch : CatchBlock.map (id : α → α) = id := by
    funext block
    simp [CatchBlock.map]
  have hpart : TemplatePart.map (id : α → α) = id := by
    funext part
    cases part <;> rfl
  have hargument : Argument.map (id : α → α) = id := rfl
  cases construct <;>
    simp [map, FunctionDef.map, PropertyDef.map, ClassDef.map, hparam, hentry, hbranch, hcatch,
      hpart, hargument]

/-! ## Trees -/

namespace Node

/-- The number of nodes on the longest way down. -/
def height (node : Node) : Nat :=
  node.fold fun construct _ => construct.parts.foldl max 0 + 1

theorem height_lt_of_mem_parts {construct : Construct Node} (hpart : part ∈ construct.parts)
    (range) :
    part.height < height ⟨construct, range⟩ := by
  have hheight : height ⟨construct, range⟩ = (construct.parts.map height).foldl max 0 + 1 := by
    rw [height, fold_mk, Construct.parts_map]
    rfl
  have hle := Swift.le_foldl_max (List.mem_map_of_mem (f := height) hpart) 0
  omega

/-- What holds of a node as soon as it holds of its parts holds of every tree. -/
theorem induction {motive : Node → Prop}
    (step : ∀ construct range, (∀ part ∈ construct.parts, motive part) →
      motive ⟨construct, range⟩) (node : Node) : motive node := by
  induction h : node.height using Nat.strongRecOn generalizing node with
  | _ height ih =>
    obtain ⟨construct, range⟩ := node
    exact step construct range fun part hpart =>
      ih part.height (h ▸ height_lt_of_mem_parts hpart range) part rfl

/-- The tree with other ranges. -/
def relocate (move : Relocation) (node : Node) : Node :=
  node.fold fun construct range => ⟨construct, move range⟩

variable (move : Relocation)

@[simp] theorem relocate_mk (construct range) :
    relocate move ⟨construct, range⟩ = ⟨construct.map (relocate move), move range⟩ :=
  fold_mk _ construct range

theorem construct_relocate (node : Node) :
    (node.relocate move).construct = node.construct.map (relocate move) := by
  obtain ⟨construct, range⟩ := node
  rw [relocate_mk]

@[simp] theorem range_relocate (node : Node) : (node.relocate move).range = move node.range := by
  obtain ⟨construct, range⟩ := node
  rw [relocate_mk]

theorem relocate_id (node : Node) : node.relocate id = node := by
  induction node using induction with
  | step construct range ih =>
    rw [relocate_mk, Construct.map_congr (g := id) ih, Construct.map_id]
    rfl

/-- A fold that pays no attention to ranges gives the same for the tree with other ranges. -/
theorem fold_relocate {alg : Construct β → β} (node : Node) :
    (node.relocate move).fold (fun construct _ => alg construct) =
      node.fold fun construct _ => alg construct := by
  induction node using induction with
  | step construct range ih =>
    rw [relocate_mk, fold_mk, fold_mk, Construct.map_map]
    exact congrArg alg (Construct.map_congr ih)

/-! ### Small trees -/

@[simp] theorem relocate_reference (name : String) (range) :
    (reference name range).relocate move = reference name (move range) := by
  simp [reference, Construct.map]

@[simp] theorem relocate_comment (text : String) (range) :
    (comment text range).relocate move = comment text (move range) := by
  simp [comment, Construct.map]

@[simp] theorem relocate_literal (value : Literal) (range) :
    (literal value range).relocate move = literal value (move range) := by
  simp [literal, Construct.map]

@[simp] theorem relocate_member (base : Node) (name : String) (range) :
    (member base name range).relocate move = member (base.relocate move) name (move range) := by
  simp [member, Construct.map]

@[simp] theorem relocate_call (callee : Node) (args range) :
    (call callee args range).relocate move =
      call (callee.relocate move) (args.map (relocate move)) (move range) := by
  simp [call, Construct.map, Argument.map]

@[simp] theorem relocate_binary (op : BinaryOp) (lhs rhs : Node) (range) :
    (binary op lhs rhs range).relocate move =
      binary op (lhs.relocate move) (rhs.relocate move) (move range) := by
  simp [binary, Construct.map]

end Node

/-! ## Text -/

section Kinds

variable (f : α → β) (construct : Construct α)

theorem Construct.precedence_map : (construct.map f).precedence = construct.precedence := by
  cases construct <;> rfl

theorem Construct.isSigned_map : (construct.map f).isSigned = construct.isSigned := by
  cases construct <;> rfl

theorem Construct.isDeclaration_map :
    (construct.map f).isDeclaration = construct.isDeclaration := by
  cases construct <;> rfl

theorem Construct.isExpression_map : (construct.map f).isExpression = construct.isExpression := by
  cases construct <;> rfl

end Kinds

namespace Written

/-- The part with other ranges, written as before. -/
def relocate (move : Relocation) (part : Part) : Part :=
  (part.1.relocate move, part.2)

variable (move : Relocation)

@[simp] theorem asValue_relocate (part : Part) : asValue (relocate move part) = asValue part :=
  rfl

@[simp] theorem asStatement_relocate (part : Part) :
    asStatement (relocate move part) = asStatement part :=
  rfl

theorem construct_relocate (part : Part) :
    (relocate move part).1.construct = part.1.construct.map (Node.relocate move) :=
  part.1.construct_relocate move

-- all else that is told of a part is what kind of construct it is
attribute [local simp] parenthesized construct_relocate Construct.precedence_map
  Construct.isSigned_map Construct.isDeclaration_map Construct.isExpression_map

theorem operand_relocate (parent : Nat) (strict : Bool) (part : Part) :
    operand parent strict (relocate move part) = operand parent strict part := by
  simp [operand]

theorem unaryOperand_relocate (part : Part) :
    unaryOperand (relocate move part) = unaryOperand part := by
  simp [unaryOperand]

theorem block_relocate (body) : block (body.map (relocate move)) = block body := by
  simp [block, Function.comp_def]

theorem itemLines_relocate (items) : itemLines (items.map (relocate move)) = itemLines items := by
  simp [itemLines, Function.comp_def]

theorem params_relocate (list) : params (list.map (Param.map (relocate move))) = params list := by
  have hparam (decl : Param Part) : param (decl.map (relocate move)) = param decl := by
    cases hvalue : decl.defaultValue <;> simp [param, Param.map, hvalue]
  simp [params, Function.comp_def, hparam]

theorem enumEntries_relocate (terminator : String) (entries) :
    enumEntries terminator (entries.map (EnumEntry.map (relocate move))) =
      enumEntries terminator entries := by
  have hentry (entry : EnumEntry Part) : enumEntry (entry.map (relocate move)) = enumEntry entry := by
    simp [enumEntry, EnumEntry.map, Function.comp_def]
  fun_induction enumEntries terminator entries with
  | case1 => rfl
  | case2 entry => simp [enumEntries, hentry]
  | case3 entry rest hrest ih =>
    obtain ⟨next, rest, rfl⟩ := List.exists_cons_of_ne_nil hrest
    simpa [enumEntries, hentry] using ih

theorem elseBranch_relocate (body) :
    elseBranch (body.map (List.map (relocate move))) = elseBranch body := by
  rcases body with _ | _ | ⟨single, _ | ⟨second, rest⟩⟩
  · rfl
  · rfl
  · cases hsingle : single.1.construct <;>
      simp [elseBranch, hsingle, Construct.map, block]
  · simp [elseBranch, block, Function.comp_def]

theorem arguments_relocate (args trailingLambda) :
    arguments (args.map (Argument.map (relocate move))) (trailingLambda.map (relocate move)) =
      arguments args trailingLambda := by
  have hargument (arg : Argument Part) : argument (arg.map (relocate move)) = argument arg := by
    cases hname : arg.name <;> simp [argument, Argument.map]
  cases trailingLambda <;> cases args <;> simp [arguments, Function.comp_def, hargument]

theorem lambda_relocate (names body) :
    lambda names (body.map (relocate move)) = lambda names body := by
  have hblock (part : Part) : (relocate move part).1.containsBlock = part.1.containsBlock :=
    Node.fold_relocate move part.1
  rcases body with _ | ⟨single, _ | ⟨second, rest⟩⟩ <;> simp [lambda, Function.comp_def, hblock]

theorem templateParts_relocate (parts) :
    templateParts (parts.map (TemplatePart.map (relocate move))) = templateParts parts := by
  have hgoesOn (parts : List (TemplatePart Part)) :
      goesOn (parts.map (TemplatePart.map (relocate move))) = goesOn parts := by
    rcases parts with _ | ⟨_ | _, rest⟩ <;> rfl
  induction parts with
  | nil => rfl
  | cons part rest ih =>
    cases part with
    | text text => simp [templateParts, TemplatePart.map, ih]
    | expr value =>
      cases hvalue : value.1.construct <;>
        simp [templateParts, templateExpr, TemplatePart.map, ih, hgoesOn, hvalue, Construct.map]

theorem fragment_relocate (construct) :
    fragment (construct.map (relocate move)) = fragment construct := by
  cases construct with
  | function decl =>
    cases hbody : decl.body <;>
      simp [fragment, Construct.map, function, FunctionDef.map, hbody, params_relocate,
        block_relocate]
  | property decl =>
    cases hinit : decl.init <;> cases hgetter : decl.getter <;> cases hsetter : decl.setter <;>
      simp [fragment, Construct.map, property, PropertyDef.map, accessor, hinit, hgetter, hsetter,
        block_relocate]
  | classDef decl =>
    simp [fragment, Construct.map, classDef, classBody, ClassDef.map, params_relocate,
      enumEntries_relocate, itemLines_relocate]
  | whenStmt subject branches =>
    have hcondition (condition : WhenCondition Part) :
        whenCondition (condition.map (relocate move)) = whenCondition condition := by
      cases condition <;> rfl
    have hbranch (branch : WhenBranch Part) :
        whenBranch (branch.map (relocate move)) = whenBranch branch := by
      simp [whenBranch, WhenBranch.map, Function.comp_def, hcondition, block_relocate]
    cases subject <;> simp [fragment, Construct.map, whenSubject, Function.comp_def, hbranch]
  | tryCatch body catches =>
    have hcatch (handler : CatchBlock Part) :
        catchBlock (handler.map (relocate move)) = catchBlock handler := by
      simp [catchBlock, CatchBlock.map, block_relocate]
    simp [fragment, Construct.map, Function.comp_def, hcatch, block_relocate]
  | unary op part => simp [fragment, Construct.map, unaryOperand_relocate]
  | returnStmt value => cases value <;> rfl
  | _ =>
    simp [fragment, Construct.map, Function.comp_def, operand_relocate, block_relocate,
      itemLines_relocate, params_relocate, elseBranch_relocate, arguments_relocate, lambda_relocate,
      templateParts_relocate]

theorem ofConstruct_relocate (construct) :
    ofConstruct (construct.map (relocate move)) = ofConstruct construct := by
  have hfragment := fragment_relocate move construct
  cases construct with
  | comment text => rfl
  | _ => exact congrArg same hfragment

end Written

namespace Node

variable (move : Relocation)

theorem written_relocate (node : Node) : (node.relocate move).written = node.written := by
  induction node using induction with
  | step construct range ih =>
    have hparts : (construct.map (relocate move)).map (fun part => (part, part.written)) =
        (construct.map fun part => (part, part.written)).map (Written.relocate move) := by
      rw [Construct.map_map, Construct.map_map]
      exact Construct.map_congr fun part hpart => Prod.ext rfl (ih part hpart)
    rw [relocate_mk, written_mk, written_mk, hparts, Written.ofConstruct_relocate]

theorem source_relocate (width : Nat) (node : Node) :
    (node.relocate move).source width = node.source width := by
  have hlines : (node.relocate move).lines = node.lines := by
    have hwritten := written_relocate move node
    unfold lines
    rw [hwritten, construct_relocate]
    cases node.construct with
    | file items =>
      have hitems : (items.map (relocate move)).map (fun item => (item, item.written)) =
          (items.map fun item => (item, item.written)).map (Written.relocate move) := by
        rw [List.map_map, List.map_map]
        exact List.map_congr_left fun item _ => Prod.ext rfl (written_relocate move item)
      simp only [Construct.map]
      rw [hitems, Written.itemLines_relocate]
    | _ => rfl
  rw [source, source, hlines]

end Node

end SwiftToKotlin.Kotlin
