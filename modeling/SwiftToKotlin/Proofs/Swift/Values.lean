import SwiftToKotlin.Proofs.Swift.Placeholders

/-!
# What stands where a value is expected

What a construct has where a value is expected was checked when it was read. So in a tree that was
read from a dump only expressions and placeholders stand there.
-/

namespace SwiftToKotlin.Swift

theorem Construct.positions_map {α β : Type} (f : α → β) (construct : Construct α) :
    (construct.map f).positions = construct.positions.map (Prod.map id f) := by
  have hstatements (parts : List α) :
      (asStatements parts).map (Prod.map id f) = asStatements (parts.map f) := by
    simp [asStatements]
  have hvalues (parts : List α) :
      (asValues parts).map (Prod.map id f) = asValues (parts.map f) := by
    simp [asValues]
  have hargument : Argument.value ∘ Argument.map f = f ∘ Argument.value := rfl
  cases construct <;>
    simp [Construct.map, FunctionDecl.map, VariableDecl.map, TypeDecl.map, EnumCaseDecl.map,
      SwitchCase.map, CatchClause.map, hstatements, hvalues, bodyMap_getD, Option.toList_map,
      hargument, List.flatMap_map, List.map_flatMap, Param.parts_map, Accessor.parts_map,
      Condition.parts_map]

/-! ## Trees -/

namespace Node

/-- The node is an expression, or it stands for something that could not be read. -/
def IsValue (node : Node) : Prop :=
  node.construct.tag.isExpression = true ∨ node.construct.tag.isPlaceholder = true

/-- The tree that is read within a bound. -/
def treeWithin (layers : Nat) (raw : Dump.Node) : Node :=
  ((ofDumpWithin layers raw).run []).1

theorem ofDumpWithin_eq (layers : Nat) (raw) :
    ofDumpWithin layers raw =
      telling (treeWithin layers raw) (treeWithin layers raw).placeholders := by
  obtain ⟨node, hnode⟩ := ofDumpWithin_eq_telling layers raw
  have htree : treeWithin layers raw = node := by
    rw [treeWithin, hnode]
    rfl
  rw [htree, hnode]

theorem treeWithin_of_error (layers : Nat) (h : Construct.read raw = .error flaw) :
    treeWithin (layers + 1) raw = ⟨.invalid raw.kind flaw, raw.range⟩ := by
  rw [treeWithin, ofDumpWithin_of_error layers h]
  rfl

theorem treeWithin_of_ok (layers : Nat) {construct : Construct Dump.Node}
    (h : Construct.read raw = .ok construct) :
    treeWithin (layers + 1) raw = ⟨construct.map (treeWithin layers), raw.range⟩ := by
  rw [treeWithin, ofDumpWithin_of_ok layers h, funext (ofDumpWithin_eq layers),
    Construct.mapM_telling]
  rfl

/-- A node that may stand where a value is expected is read as a value. -/
theorem isValue_treeWithin (layers : Nat) (h : Reading.IsValue raw) :
    (treeWithin layers raw).IsValue := by
  cases layers with
  | zero => exact .inr rfl
  | succ layers =>
    cases hread : Construct.read raw with
    | error flaw =>
      rw [treeWithin_of_error layers hread]
      exact .inr rfl
    | ok construct =>
      rw [treeWithin_of_ok layers hread, Node.IsValue]
      simp only [Construct.tag_map, Construct.tag_of_read hread]
      unfold Reading.IsValue Reading.maybeExpression at h
      split at h
      · next entry hentry =>
        cases htag : entry.tag with
        | none => simp [htag] at h
        | some tag => exact .inl (by simpa [hentry, htag] using h)
      · next hentry => exact .inr (by simp [hentry, Tag.isPlaceholder, Tag.placeholders])

theorem not_standsIn_invalid {part : Node} {range : Option SourceRange} :
    ¬ part.StandsIn role ⟨.invalid kind flaw, range⟩ := by
  intro h
  cases h with
  | here h => cases h
  | deeper hinner _ => cases hinner

theorem isValue_of_standsIn_treeWithin {part : Node}
    (h : part.StandsIn .value (treeWithin layers raw)) : part.IsValue := by
  induction layers generalizing raw with
  | zero => exact absurd h not_standsIn_invalid
  | succ layers ih =>
    cases hread : Construct.read raw with
    | error flaw =>
      rw [treeWithin_of_error layers hread] at h
      exact absurd h not_standsIn_invalid
    | ok construct =>
      rw [treeWithin_of_ok layers hread] at h
      cases h with
      | here h =>
        rw [Construct.positions_map, List.mem_map] at h
        obtain ⟨⟨role, value⟩, hvalue, heq⟩ := h
        cases heq
        exact isValue_treeWithin layers ((Construct.read_supplies raw construct hread).1 value hvalue)
      | deeper hinner h =>
        rw [Construct.parts_map, List.mem_map] at hinner
        obtain ⟨below, -, rfl⟩ := hinner
        exact ih h

/-- In a tree that was read only values stand where a value is expected. -/
theorem isValue_of_standsIn_ofDump {part : Node}
    (h : part.StandsIn .value ((ofDump raw).run found).1) : part.IsValue := by
  rw [ofDump, ofDumpWithin_eq] at h
  exact isValue_of_standsIn_treeWithin h

end Node

end SwiftToKotlin.Swift
