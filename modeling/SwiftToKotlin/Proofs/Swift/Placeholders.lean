import Mathlib.Tactic.Choose
import SwiftToKotlin.Proofs.Swift.Reading
import SwiftToKotlin.Swift.OfDump

/-!
# The diagnostics of reading are the placeholders of the tree

Reading a dump never fails: a node that cannot be read, or whose kind is unknown, leaves a
placeholder in the tree and one diagnostic in the list. The two are kept in step by the traversal of
a construct, which visits the parts in the order in which `Construct.parts` lists them. The list is
therefore known from the tree alone, and nothing is left of a part that was given up.
-/

namespace SwiftToKotlin.Swift

variable {α β : Type}

/-! ## Visiting the parts with news -/

/-- Gives a value and adds news at the end of the list. -/
def telling (value : α) (news : List Diagnostic) : StateM (List Diagnostic) α :=
  fun found => (value, found ++ news)

theorem pure_eq_telling (value : α) :
    (pure value : StateM (List Diagnostic) α) = telling value [] := by
  funext found
  exact congrArg (Prod.mk value) (List.append_nil found).symm

@[simp] theorem telling_bind_telling (value : α) (news) (f : α → β) (more : α → List Diagnostic) :
    (telling value news >>= fun a => telling (f a) (more a)) =
      telling (f value) (news ++ more value) := by
  funext found
  simp [telling, bind, StateT.bind]

section Traversal

variable (f : α → β) (news : α → List Diagnostic)

attribute [local simp] pure_eq_telling Construct.mapM Construct.map List.flatMap_assoc

@[simp] theorem mapM_telling (items : List α) :
    items.mapM (fun a => telling (f a) (news a)) = telling (items.map f) (items.flatMap news) := by
  induction items with
  | nil => simp
  | cons item rest ih => simp [ih]

@[simp] theorem optionM_telling (item : Option α) :
    optionM (fun a => telling (f a) (news a)) item =
      telling (item.map f) (item.toList.flatMap news) := by
  cases item <;> simp [optionM]

@[simp] theorem optionM_mapM_telling (body) :
    optionM (List.mapM fun a => telling (f a) (news a)) body =
      telling (body.map (List.map f)) ((body.getD []).flatMap news) := by
  cases body <;> simp [optionM]

@[simp] theorem Param.mapM_telling :
    Param.mapM (fun a => telling (f a) (news a)) =
      fun param => telling (param.map f) (param.parts.flatMap news) := by
  funext param
  simp [Param.mapM, Param.map, Param.parts]

@[simp] theorem Accessor.mapM_telling :
    Accessor.mapM (fun a => telling (f a) (news a)) =
      fun accessor => telling (accessor.map f) (accessor.parts.flatMap news) := by
  funext accessor
  simp [Accessor.mapM, Accessor.map, Accessor.parts]

@[simp] theorem SwitchCase.mapM_telling :
    SwitchCase.mapM (fun a => telling (f a) (news a)) =
      fun case => telling (case.map f) (case.parts.flatMap news) := by
  funext case
  simp [SwitchCase.mapM, SwitchCase.map, SwitchCase.parts]

@[simp] theorem CatchClause.mapM_telling :
    CatchClause.mapM (fun a => telling (f a) (news a)) =
      fun clause => telling (clause.map f) (clause.body.flatMap news) := by
  funext clause
  simp [CatchClause.mapM, CatchClause.map]

@[simp] theorem Argument.mapM_telling :
    Argument.mapM (fun a => telling (f a) (news a)) =
      fun argument => telling (argument.map f) (news argument.value) := by
  funext argument
  simp [Argument.mapM, Argument.map]

@[simp] theorem Condition.mapM_telling (condition : Condition α) :
    condition.mapM (fun a => telling (f a) (news a)) =
      telling (condition.map f) (condition.parts.flatMap news) := by
  cases condition <;> simp [Condition.mapM, Condition.map, Condition.parts]

/-- A traversal maps the layer, and its news are those of the parts in their order. -/
theorem Construct.mapM_telling (construct : Construct α) :
    construct.mapM (fun a => telling (f a) (news a)) =
      telling (construct.map f) (construct.parts.flatMap news) := by
  cases construct with
  | function decl =>
    simp [FunctionDecl.mapM, FunctionDecl.map, parts]
  | variableDecl decl =>
    simp [VariableDecl.mapM, VariableDecl.map, parts]
  | typeDecl kind decl =>
    simp [TypeDecl.mapM, TypeDecl.map, parts]
  | enumCase decl =>
    simp [EnumCaseDecl.mapM, EnumCaseDecl.map, parts]
  | call callee arguments =>
    simp [parts, List.flatMap_map]
  | _ => simp [parts]

end Traversal

/-! ## Placeholders -/

/-- What a layer tells if it is a placeholder itself. -/
def Construct.placeholder (range : Option SourceRange) : Construct α → List Diagnostic
  | invalid kind flaw => [⟨.malformed kind flaw, range⟩]
  | unknown kind _ => [⟨.unrecognized kind, range⟩]
  | _ => []

theorem Construct.placeholder_map (f : α → β) (range) (construct : Construct α) :
    (construct.map f).placeholder range = construct.placeholder range := by
  cases construct <;> rfl

namespace Node

/-- The placeholders of a tree from the root on, each as the diagnostic that it calls for. -/
def placeholders (node : Node) : List Diagnostic :=
  node.fold fun construct range => construct.placeholder range ++ construct.parts.flatten

theorem placeholders_mk (construct range) :
    placeholders ⟨construct, range⟩ =
      construct.placeholder range ++ construct.parts.flatMap placeholders := by
  rw [placeholders, fold_mk, Construct.parts_map, Construct.placeholder_map, List.flatMap_def]
  rfl

/-- A placeholder is a node that could not be read or one of an unknown kind. -/
theorem cause_of_mem_placeholders {node : Node} :
    ∀ d ∈ node.placeholders,
      (∃ kind flaw, d.cause = .malformed kind flaw) ∨ ∃ kind, d.cause = .unrecognized kind := by
  induction node using induction with
  | step construct range ih =>
    intro d hd
    rw [placeholders_mk, List.mem_append, List.mem_flatMap] at hd
    rcases hd with hown | ⟨part, hpart, hd⟩
    · unfold Construct.placeholder at hown
      split at hown <;> simp at hown
      · exact .inl ⟨_, _, by rw [hown]⟩
      · exact .inr ⟨_, by rw [hown]⟩
    · exact ih part hpart d hd

theorem ofDumpWithin_of_error (layers : Nat) (h : Construct.read raw = .error flaw) :
    ofDumpWithin (layers + 1) raw =
      telling ⟨.invalid raw.kind flaw, raw.range⟩ [⟨.malformed raw.kind flaw, raw.range⟩] := by
  rw [ofDumpWithin, h]
  rfl

/-- A layer that can be read tells of itself first and then of its parts. -/
theorem ofDumpWithin_of_ok (layers : Nat) {construct : Construct Dump.Node}
    (h : Construct.read raw = .ok construct) :
    ofDumpWithin (layers + 1) raw = do
      telling () (construct.placeholder raw.range)
      return ⟨← construct.mapM (ofDumpWithin layers), raw.range⟩ := by
  rw [ofDumpWithin, h]
  cases construct with
  | invalid kind flaw => exact absurd h Construct.read_ne_invalid
  | unknown kind children => rfl
  | _ => simp [Construct.placeholder, ← pure_eq_telling]

/-- Within any bound, what is told is what the tree shows. -/
theorem ofDumpWithin_eq_telling (layers : Nat) (raw) :
    ∃ node, ofDumpWithin layers raw = telling node node.placeholders := by
  induction layers generalizing raw with
  | zero => exact ⟨⟨.invalid raw.kind _, raw.range⟩, by rw [placeholders_mk]; rfl⟩
  | succ layers ih =>
    choose tree htree using ih
    have hbelow : ofDumpWithin layers = fun part => telling (tree part) (tree part).placeholders :=
      funext htree
    cases hread : Construct.read raw with
    | error flaw =>
      refine ⟨⟨.invalid raw.kind flaw, raw.range⟩, ?_⟩
      rw [ofDumpWithin_of_error layers hread, placeholders_mk]
      rfl
    | ok construct =>
      refine ⟨⟨construct.map tree, raw.range⟩, ?_⟩
      rw [ofDumpWithin_of_ok layers hread, hbelow, Construct.mapM_telling, placeholders_mk,
        Construct.placeholder_map, Construct.parts_map, List.flatMap_map]
      simp [pure_eq_telling]

end Node

end SwiftToKotlin.Swift
