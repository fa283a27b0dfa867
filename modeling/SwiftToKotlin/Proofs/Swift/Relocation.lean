import SwiftToKotlin.Proofs.Swift.Values

/-!
# Swift trees with other ranges

Every node of a tree has a range, and so have the conditions, the cases and the catch clauses of a
layer. A relocation changes all of them and nothing else, so what is computed from the rest of a
tree is the same for the tree with other ranges.
-/

namespace SwiftToKotlin

/-- The diagnostic at another place. -/
def Diagnostic.relocate (move : Relocation) (diagnostic : Diagnostic) : Diagnostic :=
  { diagnostic with range := move diagnostic.range }

namespace Swift

variable {α β γ : Type}

/-! ## One layer -/

theorem Construct.map_relocate (move) (f : α → β) (construct : Construct α) :
    (construct.relocate move).map f = (construct.map f).relocate move := by
  cases construct with
  | ifStmt condition thenBranch elseBranch => cases condition <;> rfl
  | guardStmt condition elseBranch => cases condition <;> rfl
  | switchStmt subject cases =>
    simp [relocate, map, SwitchCase.relocate, SwitchCase.map]
  | doCatch body catches =>
    simp [relocate, map, CatchClause.relocate, CatchClause.map]
  | _ => rfl

theorem Construct.parts_relocate (move) (construct : Construct α) :
    (construct.relocate move).parts = construct.parts := by
  cases construct with
  | ifStmt condition thenBranch elseBranch => cases condition <;> rfl
  | guardStmt condition elseBranch => cases condition <;> rfl
  | switchStmt subject cases =>
    have hcase (case : SwitchCase α) : (case.relocate move).parts = case.parts := rfl
    simp [relocate, parts, List.flatMap_map, hcase]
  | doCatch body catches => simp [relocate, parts, List.flatMap_map, CatchClause.relocate]
  | _ => rfl

theorem Construct.placeholder_relocate (move range) (construct : Construct α) :
    (construct.relocate move).placeholder (move range) =
      (construct.placeholder range).map (Diagnostic.relocate move) := by
  cases construct <;> rfl

theorem Condition.map_map (f : α → β) (g : β → γ) (condition : Condition α) :
    (condition.map f).map g = condition.map (g ∘ f) := by
  cases condition <;> rfl

theorem Construct.map_map (f : α → β) (g : β → γ) (construct : Construct α) :
    (construct.map f).map g = construct.map (g ∘ f) := by
  cases construct <;>
    simp [map, FunctionDecl.map, VariableDecl.map, TypeDecl.map, EnumCaseDecl.map, Param.map,
      Accessor.map, SwitchCase.map, CatchClause.map, Argument.map, Condition.map_map]

section Congruence

theorem optionMap_congr {value : Option α} (h : ∀ part ∈ value.toList, f part = g part) :
    value.map f = value.map g := by
  cases value <;> simp_all

theorem bodyMap_congr {body : Option (List α)} (h : ∀ part ∈ body.getD [], f part = g part) :
    body.map (List.map f) = body.map (List.map g) := by
  cases body <;> simp_all

/-- What a layer becomes depends on what happens to its parts only. -/
theorem Construct.map_congr {construct : Construct α}
    (h : ∀ part ∈ construct.parts, f part = g part) : construct.map f = construct.map g := by
  -- the same for the fields that have parts of their own
  have hparam (param : Param α) (h : ∀ part ∈ param.parts, f part = g part) :
      param.map f = param.map g := by
    simp [Param.map, optionMap_congr h]
  have haccessor (accessor : Accessor α) (h : ∀ part ∈ accessor.parts, f part = g part) :
      accessor.map f = accessor.map g := by
    simp [Accessor.map, bodyMap_congr h]
  have hcondition (condition : Condition α) (h : ∀ part ∈ condition.parts, f part = g part) :
      condition.map f = condition.map g := by
    cases condition <;> simp_all [Condition.parts, Condition.map]
  have hcase (case : SwitchCase α) (h : ∀ part ∈ case.parts, f part = g part) :
      case.map f = case.map g := by
    simp_all [SwitchCase.parts, SwitchCase.map, or_imp]
  have hcatch (clause : CatchClause α) (h : ∀ part ∈ clause.body, f part = g part) :
      clause.map f = clause.map g := by
    simpa [CatchClause.map] using h
  cases construct <;>
    simp [parts, or_imp] at h <;>
    simp [map, FunctionDecl.map, VariableDecl.map, TypeDecl.map, EnumCaseDecl.map, Argument.map] <;>
    grind [optionMap_congr, bodyMap_congr]

end Congruence

theorem Construct.map_id (construct : Construct α) : construct.map id = construct := by
  have hparam : Param.map (id : α → α) = id := by
    funext param
    simp [Param.map]
  have haccessor : Accessor.map (id : α → α) = id := by
    funext accessor
    simp [Accessor.map]
  have hcase : SwitchCase.map (id : α → α) = id := by
    funext case
    simp [SwitchCase.map]
  have hcatch : CatchClause.map (id : α → α) = id := by
    funext clause
    simp [CatchClause.map]
  have hargument : Argument.map (id : α → α) = id := rfl
  have hcondition (condition : Condition α) : condition.map id = condition := by
    cases condition <;> rfl
  cases construct <;>
    simp [map, FunctionDecl.map, VariableDecl.map, TypeDecl.map, EnumCaseDecl.map, hparam,
      haccessor, hcase, hcatch, hargument, hcondition]

theorem Construct.relocate_id (construct : Construct α) : construct.relocate id = construct := by
  have hcase : SwitchCase.relocate (α := α) id = id := rfl
  have hcatch : CatchClause.relocate (α := α) id = id := rfl
  cases construct with
  | ifStmt condition thenBranch elseBranch => cases condition <;> rfl
  | guardStmt condition elseBranch => cases condition <;> rfl
  | switchStmt subject cases => rw [relocate, hcase, List.map_id]
  | doCatch body catches => rw [relocate, hcatch, List.map_id]
  | _ => rfl

/-! ## Trees -/

namespace Node

/-- A function on trees that is given layer by layer is the fold. -/
theorem eq_fold {h : Node → β}
    (hstep : ∀ construct range, h ⟨construct, range⟩ = alg (construct.map h) range) (node : Node) :
    h node = node.fold alg := by
  induction node using induction with
  | step construct range ih => rw [hstep, fold_mk, Construct.map_congr ih]

/-- The tree with other ranges. -/
def relocate (move : Relocation) (node : Node) : Node :=
  node.fold fun construct range => ⟨construct.relocate move, move range⟩

variable (move : Relocation)

@[simp] theorem relocate_mk (construct range) :
    relocate move ⟨construct, range⟩ = ⟨construct.carry move (relocate move), move range⟩ :=
  fold_mk _ construct range

theorem construct_relocate (node : Node) :
    (node.relocate move).construct = node.construct.carry move (relocate move) := by
  obtain ⟨construct, range⟩ := node
  rw [relocate_mk]

theorem range_relocate (node : Node) : (node.relocate move).range = move node.range := by
  obtain ⟨construct, range⟩ := node
  rw [relocate_mk]

/-- A fold that pays no attention to ranges gives the same for the tree with other ranges. -/
theorem fold_relocate {alg : Construct β → Option SourceRange → β}
    (halg : ∀ construct range, alg (construct.relocate move) (move range) = alg construct range)
    (node : Node) : (node.relocate move).fold alg = node.fold alg := by
  refine eq_fold (h := fun node => (node.relocate move).fold alg) ?_ node
  intro construct range
  rw [relocate_mk, fold_mk, Construct.carry, Construct.map_relocate, halg, Construct.map_map]
  rfl

theorem height_relocate (node : Node) : (node.relocate move).height = node.height := by
  refine fold_relocate move ?_ node
  intro construct range
  rw [Construct.parts_relocate]

theorem relocate_id (node : Node) : node.relocate id = node := by
  refine (eq_fold (h := id) ?_ node).symm
  intro construct range
  rw [Construct.map_id, Construct.relocate_id]
  rfl

theorem placeholders_relocate (node : Node) :
    (node.relocate move).placeholders = node.placeholders.map (Diagnostic.relocate move) := by
  induction node using induction with
  | step construct range ih =>
    rw [relocate_mk, placeholders_mk, placeholders_mk, List.map_append, Construct.carry,
      Construct.placeholder_relocate, Construct.placeholder_map, Construct.parts_relocate,
      Construct.parts_map, List.flatMap_map, List.map_flatMap]
    rw [List.flatMap_def, List.flatMap_def, List.map_congr_left ih]

end Node

end Swift

end SwiftToKotlin
