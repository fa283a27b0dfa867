import SwiftToKotlin.Proofs.Lowering.Jumps

/-!
# Parentheses around values that are kept

Parentheses leave no trace in what a value is lowered to. A value that is stored or passed on is
looked at once more: a name for a struct is copied, or its sharing is warned of. Parentheses hide
the name from that look, so that nothing is copied or said.
-/

namespace SwiftToKotlin

namespace Lowering

open Swift (Node Role Ty)

/-! ## Enough height -/

/-- The height that trees are lowered up to does not matter for a tree that is not higher. -/
theorem outcome_descend_of_height_le (context) (visit : Visit) (hm : visit.node.height ≤ m)
    (hn : visit.node.height ≤ n) :
    (descend m).outcome context visit = (descend n).outcome context visit := by
  induction m generalizing n visit with
  | zero =>
    have hpos := visit.node.height_pos
    omega
  | succ m ih =>
    cases n with
    | zero =>
      have hpos := visit.node.height_pos
      omega
    | succ n =>
      obtain ⟨α, action, parts, trace, houtcome, htrace⟩ :=
        exists_explains_visit context m (Place.matches_ofSurroundings visit.state.surroundings)
      -- the visits that explain the outcome are of parts, which are lower
      have hparts : ∀ part ∈ trace,
          (descend n).outcome context part = (descend m).outcome context part := by
        intro part hpart
        obtain ⟨_, -, hstands, -⟩ := htrace.allowed part hpart
        have hlt := hstands.height_lt
        exact (ih part (by omega) (by omega)).symm
      have hsame := htrace.determined (descend n) hparts
      rw [descend_succ, descend_succ, houtcome, houtcome]
      exact congrArg (fun result : α × State => (parts result.1, result.2)) hsame.symm

theorem value_descend_of_height_le (hm : node.height ≤ m) (hn : node.height ≤ n) (context state) :
    (((descend m).value node).run context).run state =
      (((descend n).value node).run context).run state := by
  have hsame := outcome_descend_of_height_le context ⟨.value, node, state⟩ hm hn
  obtain ⟨hnode, hstate⟩ := Prod.mk.inj hsame
  exact Prod.ext (List.singleton_inj.1 hnode) hstate

/-! ## Names for structs -/

/-- The declared struct that a name stands for, by the type noted with the name or else by that of
the local. -/
def namedStruct? (types : DeclaredTypes) (locals : Locals) (node : Node) :
    Option (String × StructForm) :=
  match node.construct with
  | .reference name ty => do
    let declared ← (← ty.or (locals.typeOf? name)).name?
    let decl ← types.struct? (types.resolve declared)
    return (types.resolve declared, structForm decl)
  | _ => none

/-- Of the places only names have a type that is known. -/
theorem placedStruct_run (node : Node) (context state) :
    ((Descent.placedStruct node).run context).run state =
      (namedStruct? context.types state.locals node, state) := by
  obtain ⟨construct, range⟩ := node
  cases construct with
  | reference name ty =>
    change ((ty.or (state.locals.typeOf? name)).bind _, state) = _
    congr 1
    unfold namedStruct?
    dsimp only
    cases ty.or (state.locals.typeOf? name) with
    | none => rfl
    | some found =>
      cases hname : found.name? with
      | none => simp [hname]
      | some declared => simp [Option.map_eq_bind, Function.comp_def]
  | _ => rfl

/-- The copy that is made of a lowered value. -/
def copyOf (lowered : Kotlin.Node) : Kotlin.Node :=
  .call (.member lowered "copy" lowered.range) [] lowered.range

/-- What is done to a lowered value that is kept, given the struct that it belongs to. -/
def keeping (struct : Option (String × StructForm)) (range : Option SourceRange)
    (result : Kotlin.Node × State) : Kotlin.Node × State :=
  match struct with
  | some (_, .dataClass) => (copyOf result.1, result.2)
  | some (name, .classWithEquality) =>
    (result.1, { result.2 with
      diagnostics := result.2.diagnostics ++ [⟨.mismatch (.sharedStruct name), range⟩] })
  | none => result

theorem kept_run (node : Node) (height : Nat) (context state) :
    (((descend height).kept node).run context).run state =
      keeping (namedStruct? context.types state.locals node) node.range
        ((((descend height).value node).run context).run state) := by
  have hlocals := ((descend_follows stackDiscipline height).value node context state).locals
  unfold Descent.kept
  rw [ReaderT.run_bind, StateT.run_bind]
  generalize (((descend height).value node).run context).run state = result at hlocals ⊢
  have hplaced := placedStruct_run node context result.2
  rw [show result.2.locals = state.locals from hlocals] at hplaced
  change ((Descent.placedStruct node >>= _).run context).run result.2 = _
  rw [ReaderT.run_bind, StateT.run_bind, hplaced]
  rcases namedStruct? context.types state.locals node with _ | ⟨name, _ | _⟩
  · rfl
  · rfl
  · rfl

/-! ## Parentheses -/

/-- A node in as many pairs of parentheses as there are ranges for them. -/
def parenthesized (ranges : List (Option SourceRange)) (node : Node) : Node :=
  ranges.foldr (fun range inner => ⟨.wrapped .paren inner, range⟩) node

theorem parenthesized_cons (range ranges) (node : Node) :
    parenthesized (range :: ranges) node = ⟨.wrapped .paren (parenthesized ranges node), range⟩ :=
  rfl

theorem height_parenthesized (ranges) (node : Node) :
    (parenthesized ranges node).height = ranges.length + node.height := by
  induction ranges with
  | nil => simp [parenthesized]
  | cons range ranges ih =>
    rw [parenthesized_cons, Node.height, Node.fold_mk, List.length_cons]
    change max 0 (parenthesized ranges node).height + 1 = _
    omega

theorem value_parenthesized (ranges) (h : (parenthesized ranges node).height ≤ height)
    (context state) :
    (((descend height).value (parenthesized ranges node)).run context).run state =
      (((descend height).value node).run context).run state := by
  induction ranges generalizing height with
  | nil => rfl
  | cons range ranges ih =>
    rw [height_parenthesized, List.length_cons] at h
    cases height with
    | zero => omega
    | succ height =>
      calc
        _ = (((descend height).value (parenthesized ranges node)).run context).run state := rfl
        _ = (((descend height).value node).run context).run state :=
          ih (by rw [height_parenthesized]; omega)
        _ = _ := value_descend_of_height_le (by omega) (by omega) context state

/-- A copy is more than what it is a copy of, wherever they are. -/
theorem relocate_copyOf_ne (move lowered) :
    lowered.relocate move ≠ (copyOf lowered).relocate move := by
  intro h
  rw [copyOf, Kotlin.Node.relocate_call, Kotlin.Node.relocate_member] at h
  have hsizes := congrArg sizeOf h
  simp only [Kotlin.Node.call, Kotlin.Node.member, Kotlin.Node.mk.sizeOf_spec,
    Kotlin.Construct.call.sizeOf_spec, Kotlin.Construct.member.sizeOf_spec] at hsizes
  omega

/-- What is kept differs from the value exactly if it belongs to a struct. -/
theorem keeping_agrees_iff (struct range result) :
    (result.1.relocate nowhere = (keeping struct range result).1.relocate nowhere ∧
        result.2.diagnostics = (keeping struct range result).2.diagnostics) ↔ struct = none := by
  rcases struct with _ | ⟨name, _ | _⟩
  · simp [keeping]
  · have hcopy := relocate_copyOf_ne nowhere result.1
    simp [keeping, hcopy]
  · simp [keeping]

/-- Parentheses around a value that is kept leave what it is lowered to, and nothing is copied or
reported for them. So they make no difference exactly if the value is no name for a struct. -/
theorem kept_parenthesized_iff (context : Context) (state : State) (node : Node)
    (range : Option SourceRange) (ranges : List (Option SourceRange)) {height : Nat}
    (h : (parenthesized (range :: ranges) node).height ≤ height) :
    let lowered := (((descend height).value node).run context).run state
    let bare := (((descend height).kept node).run context).run state
    let enclosed :=
      (((descend height).kept (parenthesized (range :: ranges) node)).run context).run state
    enclosed = lowered ∧
      bare = keeping (namedStruct? context.types state.locals node) node.range lowered ∧
      ((enclosed.1.relocate nowhere = bare.1.relocate nowhere ∧
          enclosed.2.diagnostics = bare.2.diagnostics) ↔
        namedStruct? context.types state.locals node = none) := by
  intro lowered bare enclosed
  have hbare : bare = keeping (namedStruct? context.types state.locals node) node.range lowered :=
    kept_run node height context state
  have henclosed : enclosed = lowered := by
    have hkept := kept_run (parenthesized (range :: ranges) node) height context state
    exact hkept.trans (value_parenthesized (range :: ranges) h context state)
  constructor
  · exact henclosed
  · constructor
    · exact hbare
    · rw [henclosed, hbare]
      exact keeping_agrees_iff _ node.range lowered

/-- A file with a struct that becomes a data class, for a name of that type. -/
def pointContext : Context :=
  let x : Swift.VariableDecl Node := ⟨"x", some (.named "Int" []), false, false, none, []⟩
  .ofRoot [] ⟨.typeDecl .structType ⟨"Point", [], [⟨.variableDecl x, none⟩]⟩, none⟩

def pointName : Node :=
  ⟨.reference "origin" (some (.named "Point" [])), none⟩

theorem pointName_copied_only_bare :
    (parenthesized [none, none] pointName).height ≤ 3 ∧
      namedStruct? pointContext.types [] pointName = some ("Point", .dataClass) ∧
      (((descend 3).kept pointName).run pointContext).run {} =
        (copyOf (.reference "origin" none), {}) ∧
      (((descend 3).kept (parenthesized [none, none] pointName)).run pointContext).run {} =
        (.reference "origin" none, {}) := by
  have hheight : (parenthesized [none, none] pointName).height ≤ 3 := by decide
  have hstruct : namedStruct? pointContext.types [] pointName = some ("Point", .dataClass) := by
    with_unfolding_all rfl
  have hlowered : (((descend 3).value pointName).run pointContext).run {} =
      (.reference "origin" none, {}) := by
    with_unfolding_all rfl
  obtain ⟨henclosed, hbare, -⟩ :=
    kept_parenthesized_iff pointContext {} pointName none [none] hheight
  refine ⟨hheight, hstruct, ?_, ?_⟩
  · rw [hbare, hlowered]
    exact congrArg (keeping · none (.reference "origin" none, {})) hstruct
  · exact henclosed.trans hlowered

end Lowering

namespace Conversion

/-- A function that stores its parameter, which is a struct, in a new name. -/
def storing (value : Dump.Node) : Dump.Node :=
  ⟨"source_file", [],
    [⟨"struct_decl", [("name", "P")],
        [⟨"var_decl", [("name", "x"), ("type", "Int")], [], none⟩], none⟩,
      ⟨"func_decl", [("name", "f")],
        [⟨"parameter_list", [], [⟨"parameter", [("name", "a"), ("type", "P")], [], none⟩], none⟩,
          ⟨"brace_stmt", [],
            [⟨"var_decl", [("name", "b"), ("let", "")], [value], none⟩], none⟩], none⟩], none⟩

/-- The parameter is copied if it stands there alone, and shared if it stands in parentheses. -/
theorem struct_shared_in_parentheses :
    let name : Dump.Node := ⟨"declref_expr", [("name", "a")], [], none⟩
    let stored (value : Kotlin.Node) : Kotlin.Node :=
      ⟨.function
        { name := "f", receiver := none, params := [{ name := "a", ty := .named "P" [] }],
          returnType := none,
          body := some [⟨.property { name := "b", binding := .val, init := some value }, none⟩],
          modifiers := [] },
        none⟩
    ∃ struct,
      (ofDump {} (storing name)).kotlin =
          ⟨.file [struct, stored (Lowering.copyOf (.reference "a" none))], none⟩ ∧
        (ofDump {} (storing ⟨"paren_expr", [], [name], none⟩)).kotlin =
          ⟨.file [struct, stored (.reference "a" none)], none⟩ ∧
        (ofDump {} (storing ⟨"paren_expr", [], [name], none⟩)).diagnostics = [] := by
  with_unfolding_all exact ⟨_, rfl, rfl, rfl⟩

end Conversion

end SwiftToKotlin
