import SwiftToKotlin.Proofs.Lowering.Reach

/-!
# Calls in compound assignments

The target of a compound assignment is lowered once, and so is the value after it. Where Kotlin has
the assignment, what they are lowered to is written once. The others are spelled out as `a = a op b`:
there the target stands twice, and every call in it is made twice.
-/

namespace SwiftToKotlin

namespace Kotlin.Node

/-- The nodes of a tree as often as they stand there, each before those in it. -/
def nodes (node : Node) : List Node :=
  node.para fun construct range =>
    ⟨construct.map Prod.fst, range⟩ :: construct.parts.flatMap Prod.snd

theorem nodes_mk (construct : Construct Node) (range : Option SourceRange) :
    nodes ⟨construct, range⟩ = [⟨construct, range⟩] ++ construct.parts.flatMap nodes := by
  rw [nodes, para_mk, Construct.parts_map, List.flatMap_map, Construct.map_map]
  exact congrArg (fun own => (⟨own, range⟩ : Node) :: _) construct.map_id

theorem mem_nodes_iff {node whole : Node} : node ∈ whole.nodes ↔ node.OccursIn whole := by
  rw [@mem_collected_iff _ (fun node => [node]) _ nodes_mk]
  simp

theorem nodes_assign (op : AssignOp) (target value : Node) (range : Option SourceRange) :
    nodes ⟨.assign op target value, range⟩ =
      ⟨.assign op target value, range⟩ :: (target.nodes ++ value.nodes) := by
  simp [nodes_mk]

theorem nodes_binary (op : BinaryOp) (lhs rhs : Node) (range : Option SourceRange) :
    (binary op lhs rhs range).nodes = binary op lhs rhs range :: (lhs.nodes ++ rhs.nodes) := by
  simp [binary, nodes_mk]

end Kotlin.Node

namespace Lowering

open Swift (Node)

/-- The compound assignments that Kotlin lacks. -/
def spelledOutOperators : List String :=
  ["&=", "|=", "^=", "<<=", ">>="]

theorem Statement.compoundAssign_run (descent : Descent) {operator : String}
    (hop : isAssignmentOperator operator = true) (target value : Node)
    (range : Option SourceRange) (context : Context) (state : State) :
    let first := ((descent.value target).run context).run state
    let second := ((descent.value value).run context).run first.2
    ∃ statement,
      ((compoundAssign descent operator target value range).run context).run state =
        (statement, second.2) ∧
      if operator ∈ spelledOutOperators then
        ∃ spelled, statement.nodes =
          statement :: (first.1.nodes ++ spelled :: (first.1.nodes ++ second.1.nodes))
      else statement.nodes = statement :: (first.1.nodes ++ second.1.nodes) := by
  intro first second
  have hmem : operator ∈ ["+=", "-=", "*=", "/=", "%="] ++ spelledOutOperators :=
    List.contains_iff_mem.1 hop
  rcases List.mem_append.1 hmem with hown | hspelled
  · simp only [List.mem_cons, List.not_mem_nil, or_false] at hown
    rcases hown with rfl | rfl | rfl | rfl | rfl
    all_goals exact ⟨_, rfl, Kotlin.Node.nodes_assign _ _ _ _⟩
  -- the target is an operand as well, so its nodes come twice
  · simp only [if_pos hspelled]
    simp only [spelledOutOperators, List.mem_cons, List.not_mem_nil, or_false] at hspelled
    rcases hspelled with rfl | rfl | rfl | rfl | rfl
    all_goals
      refine ⟨_, rfl, ?_⟩
      apply Exists.intro
      rw [Kotlin.Node.nodes_assign, Kotlin.Node.nodes_binary]
      rfl

/-- A compound assignment lowers its target and then its value, each once, and nothing else. All that
lowering comes to in them is there in what it writes for them. In the statement the value is written
once. The target is written once too for the assignments that Kotlin has, and twice, with every call
in it, for those that are spelled out. -/
theorem compoundAssign_writes_target (context : Context) (height : Nat) {operator : String}
    (hop : isAssignmentOperator operator = true) (target value : Node)
    (range : Option SourceRange) (state : State) :
    let first : Visit := ⟨.value, target, state⟩
    let second : Visit := ⟨.value, value, ((descend height).outcome context first).2⟩
    ∃ written given statement : Kotlin.Node,
      ((descend height).outcome context first).1 = [written] ∧
      ((descend height).outcome context second).1 = [given] ∧
      (descend (height + 1)).outcome context
          ⟨.statement, ⟨.binary operator target value, range⟩, state⟩ =
        ([statement], ((descend height).outcome context second).2) ∧
      (if operator ∈ spelledOutOperators then
        ∃ spelled, statement.nodes =
          statement :: (written.nodes ++ spelled :: (written.nodes ++ given.nodes))
      else statement.nodes = statement :: (written.nodes ++ given.nodes)) ∧
      ∀ below inner, ∀ made ∈ ((descend below).outcome context inner).1,
        (ComesTo context height first below inner → made ∈ written.nodes) ∧
        (ComesTo context height second below inner → made ∈ given.nodes) := by
  intro first second
  obtain ⟨statement, hrun, hnodes⟩ :=
    Statement.compoundAssign_run (descend height) hop target value range context state
  refine ⟨_, _, statement, rfl, rfl, ?_, hnodes, fun below inner made hmade => ?_⟩
  · change ((lowerStatement (descend height) ⟨.binary operator target value, range⟩).run
      context).run state = _
    simp only [lowerStatement, if_pos hop]
    exact congrArg (fun result : Kotlin.Node × State => ([result.1], result.2)) hrun
  · have hin : made.OccursAmong ((descend below).outcome context inner).1 := ⟨made, hmade, .here⟩
    have hnode {whole : Visit} {lowered : Kotlin.Node}
        (hwhole : ((descend height).outcome context whole).1 = [lowered])
        (h : ComesTo context height whole below inner) : made ∈ lowered.nodes :=
      Kotlin.Node.mem_nodes_iff.2 (by simpa [hwhole] using h.kept hin)
    exact ⟨hnode rfl, hnode rfl⟩

/-- The statement `f().x |= g()`. -/
def maskedByCall : Node :=
  ⟨.binary "|=" ⟨.member ⟨.call ⟨.reference "f" none, none⟩ [], none⟩ "x", none⟩
    ⟨.call ⟨.reference "g" none, none⟩ [], none⟩, none⟩

theorem maskedByCall_calls_target_twice :
    let call (name : String) : Kotlin.Node := .call (.reference name none) [] none
    let target : Kotlin.Node := .member (call "f") "x" none
    isAssignmentOperator "|=" = true ∧ ∃ statement spelled,
      (descend 4).outcome (.ofRoot [] maskedByCall) ⟨.statement, maskedByCall, {}⟩ =
        ([statement], {}) ∧
      statement.nodes =
        statement :: (target.nodes ++ spelled :: (target.nodes ++ (call "g").nodes)) ∧
      call "f" ∈ target.nodes := by
  have hop : isAssignmentOperator "|=" = true := by decide
  obtain ⟨written, given, statement, hwritten, hgiven, hstatement, ⟨spelled, hnodes⟩, -⟩ :=
    compoundAssign_writes_target (.ofRoot [] maskedByCall) 3 hop _ _ none {}
  obtain rfl := List.singleton_inj.1 hwritten
  obtain rfl := List.singleton_inj.1 hgiven
  refine ⟨hop, statement, spelled, hstatement, hnodes, Kotlin.Node.mem_nodes_iff.2 ?_⟩
  exact .part List.mem_cons_self .here

end Lowering

namespace Conversion

/-- The function `func g() { f().x &= 1 }`. -/
def maskedMember : Dump.Node :=
  ⟨"source_file", [], [⟨"func_decl", [("name", "g")], [⟨"brace_stmt", [],
    [⟨"binary_expr", [("operator", "&=")],
      [⟨"member_ref_expr", [("name", "x")],
        [⟨"call_expr", [], [⟨"declref_expr", [("name", "f")], [], none⟩], none⟩], none⟩,
        ⟨"integer_literal_expr", [("value", "1")], [], none⟩], none⟩], none⟩], none⟩], none⟩

/-- The one call in the function is written twice, without a word. -/
theorem maskedMember_calls_twice :
    let target : Kotlin.Node := .member (.call (.reference "f" none) [] none) "x" none
    (ofDump {} maskedMember).kotlin = ⟨.file [⟨.function
        { name := "g", receiver := none, params := [], returnType := none
          body := some [⟨.assign .assign target
            (.binary .and target (.literal (.int "1") none) none), none⟩]
          modifiers := [] }, none⟩], none⟩ ∧
      (ofDump {} maskedMember).diagnostics = [] := by
  with_unfolding_all exact ⟨rfl, rfl⟩

end Conversion

end SwiftToKotlin
