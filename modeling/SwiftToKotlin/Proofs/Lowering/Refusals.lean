import SwiftToKotlin.Proofs.Lowering.Reach

/-!
# What a place refuses

A break in a switch case, a return in a closure, a stored property in an extension and an
initializer outside of a type have no counterpart in Kotlin because of where they stand. Each of
them that is reached as a statement becomes a comment with an error, and there is no such error
without one of them.
-/

namespace SwiftToKotlin

namespace Lowering

open Swift (Node Role)

/-! ## One statement -/

/-- What is left of a statement that is refused. -/
def refusal (obstacle : Obstacle) (range : Option SourceRange) (state : State) :
    Kotlin.Node × State :=
  (.comment obstacle.message range,
    { state with diagnostics := state.diagnostics ++ [⟨.noEquivalent obstacle, range⟩] })

theorem Statement.breakStmt_run (range context state) :
    ((breakStmt range).run context).run state =
      if state.surroundings.inCase then refusal .breakInCase range state
      else (⟨.breakStmt, range⟩, state) := by
  change (((if state.surroundings.inCase then refuse .breakInCase range
    else pure ⟨.breakStmt, range⟩ : Lower Kotlin.Node)).run context).run state = _
  split <;> rfl

theorem Statement.returnStmt_run (h : 0 < state.surroundings.closureDepth) :
    ((returnStmt descent value range).run context).run state =
      refusal .returnInClosure range state := by
  change ((if state.surroundings.closureDepth > 0 then refuse .returnInClosure range
    else _).run context).run state = _
  rw [if_pos h]
  rfl

theorem Function.initializer_run (h : state.surroundings.scope.isType = false) :
    ((initializer descent params statements range).run context).run state =
      refusal .initializerInExtension range state := by
  change ((if !state.surroundings.scope.isType then refuse .initializerInExtension range
    else _).run context).run state = _
  rw [if_pos (by simp [h])]
  rfl

theorem Function.variableType_run (decl context state) :
    ∃ known, ((variableType decl).run context).run state = (known, state) := by
  unfold variableType
  split
  · exact ⟨_, rfl⟩
  · exact ⟨_, rfl⟩
  · exact ⟨_, rfl⟩

theorem Function.variableDecl_run_of_receiver (hstored : decl.isStored = true)
    (h : state.surroundings.scope.receiver?.isSome = true) :
    ((variableDecl descent decl range).run context).run state =
      refusal (.storedPropertyInExtension decl.name) range state := by
  obtain ⟨known, hknown⟩ := variableType_run decl context state
  unfold variableDecl
  rw [ReaderT.run_bind, StateT.run_bind, hknown]
  change ((if (decl.isStored && state.surroundings.scope.receiver?.isSome) = true then
    refuse (.storedPropertyInExtension decl.name) range else _).run context).run state = _
  rw [if_pos (by simp [hstored, h])]
  rfl

variable {place : Place}

theorem outcome_of_one (hrole : visit.role = .statement)
    (h : lowerStatement (descend height) visit.node = do return [← action]) :
    (descend (height + 1)).outcome context visit =
      ([((action.run context).run visit.state).1], ((action.run context).run visit.state).2) := by
  obtain ⟨role, node, state⟩ := visit
  obtain rfl : role = .statement := hrole
  change ((lowerStatement (descend height) node).run context).run state = _
  rw [show lowerStatement (descend height) node = _ from h]
  rfl

/-- A statement that its place refuses becomes a comment, and nothing below it is looked at. -/
theorem outcome_of_obstacle (hplace : place.Matches visit.state.surroundings)
    (hrole : visit.role = .statement) (h : place.obstacle? visit.node.construct = some obstacle) :
    (descend (height + 1)).outcome context visit =
      ([.comment obstacle.message visit.node.range], { visit.state with diagnostics :=
            visit.state.diagnostics ++ [⟨.noEquivalent obstacle, visit.node.range⟩] }) := by
  have hone {action : Lower Kotlin.Node}
      (hanswer : lowerStatement (descend height) visit.node = do return [← action])
      (haction : (action.run context).run visit.state =
        refusal obstacle visit.node.range visit.state) :
      (descend (height + 1)).outcome context visit =
        ([(refusal obstacle visit.node.range visit.state).1],
          (refusal obstacle visit.node.range visit.state).2) := by
    rw [outcome_of_one hrole hanswer, haction]
  unfold Place.obstacle? at h
  split at h
  · next hc =>
    split at h
    · next hcase =>
      cases h
      refine hone (by simp only [lowerStatement, hc]; rfl) ?_
      rw [Statement.breakStmt_run, if_pos (hplace.inCase.2 hcase)]
    · cases h
  · next hc =>
    split at h
    · next hclosures =>
      cases h
      exact hone (by simp only [lowerStatement, hc]; rfl)
        (Statement.returnStmt_run (by simpa [hplace.closures] using hclosures))
    · cases h
  · next hc =>
    split at h
    · cases h
    · next howner =>
      cases h
      refine hone (by simp only [lowerStatement, hc]; rfl)
        (Function.initializer_run (Bool.eq_false_iff.2 fun htype => howner ?_))
      exact hplace.owner.symm.trans ((Scope.isType_iff _).1 htype)
  · next decl hc =>
    split at h
    · next hrefused =>
      cases h
      refine hone (by simp only [lowerStatement, hc]; rfl)
        (Function.variableDecl_run_of_receiver hrefused.1 ?_)
      exact (Scope.isSome_receiver?_iff _).2 (hplace.owner.trans hrefused.2)
    · cases h
  · cases h

end Lowering

/-! ## Conversion -/

namespace Conversion

open Lowering (Place Visit Obstacle)

/-- The visits that converting a dump leads to, with the height that is left and the place. -/
def Reaches (settings : Settings) (dump : Dump.Node) (height : Nat) (place : Place)
    (visit : Visit) : Prop :=
  let (swift, found) := (Swift.Node.ofDump dump).run []
  Lowering.Reached settings.droppedImports swift found height place visit

/-- What the tree of a dump is lowered with. -/
abbrev context (settings : Settings) (dump : Dump.Node) : Lowering.Context :=
  .ofRoot settings.droppedImports (ofDump settings dump).swift

/-- What a visit makes. -/
def made (settings : Settings) (dump : Dump.Node) (height : Nat) (visit : Visit) :
    List Kotlin.Node :=
  ((Lowering.descend height).outcome
    (.ofRoot settings.droppedImports (ofDump settings dump).swift) visit).1

/-- The visit makes this node alone, and the node is part of the Kotlin file. -/
structure Becomes (settings : Settings) (dump : Dump.Node) (height : Nat) (visit : Visit)
    (node : Kotlin.Node) : Prop where
  made_eq : made settings dump height visit = [node]
  occursIn : node.OccursIn (ofDump settings dump).kotlin

namespace Reaches

variable (h : Reaches settings dump height place visit)

include h

/-- What is lowered as a value is one. -/
theorem isValue (hrole : visit.role = .value) : visit.node.IsValue := by
  rcases h.standsIn with rfl | hstands
  · cases hrole
  · rw [hrole] at hstands
    exact Swift.Node.isValue_of_standsIn_ofDump hstands

/-- What is no expression is never lowered as a value. -/
theorem role_eq_statement (hc : visit.node.construct = construct)
    (hexpression : construct.tag.isExpression = false := by rfl)
    (hplaceholder : construct.tag.isPlaceholder = false := by rfl) : visit.role = .statement := by
  subst hc
  cases hrole : visit.role with
  | statement => rfl
  | value =>
    have hvalue := h.isValue hrole
    simp [Swift.Node.IsValue, hexpression, hplaceholder] at hvalue

/-- What a visit makes is part of the Kotlin file. -/
theorem becomes (hmade : made settings dump height visit = [node]) :
    Becomes settings dump height visit node := by
  have hnode : node ∈ made settings dump height visit := by simp [hmade]
  exact ⟨hmade, h.kept ⟨node, hnode, .here⟩⟩

/-- A statement that is reached in a place that refuses it becomes a comment with an error. -/
theorem refused (hrole : visit.role = .statement)
    (hobstacle : place.obstacle? visit.node.construct = some obstacle) :
    Becomes settings dump height visit (.comment obstacle.message visit.node.range) ∧
      ⟨.noEquivalent obstacle, visit.node.range⟩ ∈ (ofDump settings dump).diagnostics := by
  obtain ⟨below, rfl⟩ := h.exists_succ
  have hplace := h.matches_surroundings
  constructor
  · exact h.becomes (congrArg Prod.fst (Lowering.outcome_of_obstacle hplace hrole hobstacle))
  · refine h.told.subset ?_
    rw [Lowering.outcome_of_obstacle hplace hrole hobstacle]
    simp

end Reaches

/-- Reading tells nothing that is due to a place. -/
theorem not_isPlaced_of_mem_found (h : d ∈ ((Swift.Node.ofDump dump).run []).2) :
    ¬ d.isPlaced = true := by
  rw [Swift.Node.ofDump, Swift.Node.ofDumpWithin_eq] at h
  obtain ⟨cause, range⟩ := d
  rcases Swift.Node.cause_of_mem_placeholders _ h with ⟨kind, flaw, rfl⟩ | ⟨kind, rfl⟩
  · exact Bool.false_ne_true
  · exact Bool.false_ne_true

/-- An error that is due to a place comes from a statement that is reached in such a place. -/
theorem exists_of_refusal (hplaced : obstacle.isPlaced = true)
    (h : ⟨.noEquivalent obstacle, range⟩ ∈ (ofDump settings dump).diagnostics) :
    ∃ height place visit, Reaches settings dump height place visit ∧ visit.role = .statement ∧
      place.obstacle? visit.node.construct = some obstacle ∧ visit.node.range = range := by
  have hown : Diagnostic.isPlaced ⟨.noEquivalent obstacle, range⟩ = true := hplaced
  have hnew : ⟨.noEquivalent obstacle, range⟩ ∉ ((Swift.Node.ofDump dump).run []).2 :=
    fun hfound => not_isPlaced_of_mem_found hfound hown
  rcases Lowering.Reached.root.exists_of_placed hown h hnew with
    ⟨height, place, visit, other, hreached, hrole, hobstacle, heq⟩ |
    ⟨height, place, visit, hreached, hrole, hnot⟩
  · cases heq
    exact ⟨height, place, visit, hreached, hrole, hobstacle, rfl⟩
  · exact absurd (Reaches.isValue hreached hrole) hnot

end Conversion

end SwiftToKotlin
