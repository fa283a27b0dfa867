import SwiftToKotlin.Proofs.Lowering.FreeNames

/-!
# Expressions show no jump

Lowering puts no jump around the values that an expression is made of, and the statements of a
closure are in a lambda. Where lambdas are looked into, returns are looked for, and a closure
refuses those.
-/

namespace SwiftToKotlin.Lowering

open Swift (Node)

/-- The action makes a node in which no jump surfaces. -/
abbrev MakesCalm (context : Context) (search : Kotlin.Search) (action : Lower Kotlin.Node) : Prop :=
  Returns context action fun node => ¬ search.Finds node

/-- Lowering parts of some height shows the jumps that they leave, and none in values. -/
structure Descent.ShowsJumps (descent : Descent) (context : Context) (search : Kotlin.Search)
    (height : Nat) : Prop where
  follows : descent.Follows stackDiscipline
  statement : ∀ place node, ReturnsAt context place (descent.statement node) fun made =>
    Shows (node.height ≤ height) (Leaves search place node) (search.FindsAmong made)
  value : ∀ node, MakesCalm context search (descent.value node)

variable {descent : Descent}

theorem calm_refuse (obstacle) (range) :
    MakesCalm context search (refuse obstacle range) :=
  .after fun _ => .pure (by simp)

variable (below : descent.ShowsJumps context search height)

include below

theorem calm_valueAt (place) (node : Node) :
    ReturnsAt context place (descent.value node) fun made => ¬ search.Finds made :=
  .of_returns (below.value node) (below.follows.value node)

theorem shows_sequence (place : Place) (nodes) :
    ReturnsAt context place (descent.sequence nodes) (ShowsJumps search height place nodes) := by
  have hall := ReturnsAt.mapM nodes fun node _ => below.statement place node
  refine hall.bind fun made hmade => .pure (hmade.congr id Iff.rfl ?_)
  exact Kotlin.Search.findsAmong_flatten

theorem shows_statements (place nodes) :
    ReturnsAt context place (descent.statements nodes) (ShowsJumps search height place nodes) :=
  (shows_sequence below place nodes).inBlock

theorem calm_kept (node : Node) : MakesCalm context search (descent.kept node) := by
  refine (below.value node).bind fun _ hvalue => .after fun _ => ?_
  split
  · exact .pure (by simpa using hvalue)
  · exact .after fun _ => .pure hvalue
  · exact .pure hvalue

/-! ## Expressions -/

namespace Expression

/-- The last statement of a closure shows no jump that it does not leave; of a return only the
value is there. -/
theorem lastStatement_sound (place) (node : Node) :
    ReturnsAt context place (lastStatement descent node) fun made =>
      search.FindsAmong made → Leaves search place node := by
  unfold lastStatement
  split
  · next value _ =>
    refine (ReturnsAt.of_returns (calm_kept below value) (keeps_kept below.follows value)).bind
      fun _ hvalue => .pure (by simp [hvalue])
  · exact .pure (by simp)
  · exact (below.statement place node).mono fun _ hshows => hshows.sound

theorem closureBody_sound (place body) :
    ReturnsAt context place (closureBody descent body) fun made =>
      search.FindsAmong made → ∃ node ∈ body, Leaves search place node := by
  unfold closureBody
  split
  · next last hlast =>
    refine (shows_statements below place body.dropLast).bind fun _ hfirst =>
      (lastStatement_sound below place last).bind fun _ hend => .pure fun hfound => ?_
    rcases Kotlin.Search.findsAmong_append.1 hfound with hfound | hfound
    · obtain ⟨node, hnode, hleaves⟩ := hfirst.sound hfound
      exact ⟨node, List.dropLast_subset _ hnode, hleaves⟩
    · exact ⟨last, List.mem_of_getLast? hlast, hend hfound⟩
  · exact .pure (by simp)

/-- A lambda is passed over, or what is looked for in it are returns, of which it has none. -/
theorem calm_closure (params body range) :
    MakesCalm context search (closure descent params body range) := by
  refine ReturnsAt.returns fun place => ?_
  have hparams : KeepsOuter (params.forM fun param => declare param none) :=
    .forM params fun param => keepsOuter_declare param none
  have hbody := (ReturnsAt.after hparams fun _ =>
    closureBody_sound below (place.enter .closure) body).inClosure
  refine hbody.bind fun lowered hlowered => .pure ?_
  cases hlambdas : search.lambdas with
  | false => simp [hlambdas]
  | true =>
    simp only [Kotlin.Search.finds_mk, Kotlin.Construct.jump?, Option.any_none,
      Bool.false_eq_true, false_or, Kotlin.Construct.openParts, hlambdas]
    intro hfound
    obtain ⟨node, -, hleaves⟩ := hlowered hfound
    exact not_leaves_of_closures hlambdas (Nat.succ_pos place.closures) hleaves

omit below in
/-- What surfaces in an expression that is no closure surfaces in one of its values. -/
theorem calm_lower (below : (descend height).ShowsJumps context search height) (node : Node) :
    MakesCalm context search (Expression.lower (descend height) node) := by
  cases hclosure : Call.isClosure node with
  | true =>
    unfold Call.isClosure at hclosure
    split at hclosure
    · next hc =>
      simp only [lower, hc]
      exact calm_closure below _ _ _
    · cases hclosure
  | false =>
    intro state hfound
    have hnode : Inherits context height fun descent => lower descent node :=
      inherits_lower node hclosure
    obtain ⟨trace, -, hroles, hhanded, -⟩ := hnode.traced state
    rcases hhanded.jumps search (Kotlin.Search.findsAmong_cons.2 (.inl hfound)) with
      ⟨made, hmade, hfound⟩ | ⟨_, hnone, hkind⟩
    · obtain ⟨⟨role, part, inner⟩, hvisit, hmade⟩ := List.mem_flatMap.1 hmade
      obtain rfl : role = .value := hroles _ hvisit
      obtain rfl := List.mem_singleton.1 hmade
      exact below.value part inner hfound
    · rw [hnone] at hkind
      cases hkind

end Expression

end SwiftToKotlin.Lowering
