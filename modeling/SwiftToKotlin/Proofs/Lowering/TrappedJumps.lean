import SwiftToKotlin.Proofs.Lowering.Jumps.Declaration

/-!
# Jumps in the lambda of a `let`

An optional binding becomes `e?.let { x -> … }` if a search of its branch finds no jump, so that
none is trapped in the lambda. The search goes down the statements of the branch, but not into nodes
of an unknown kind, nor into types, extensions and files, whose statements are lowered in place all
the same. A jump surfaces in the lambda exactly if a statement of the branch leaves one, and it is
then hidden in such a construct.
-/

namespace SwiftToKotlin

namespace Lowering

open Swift (Node Construct)

/-! ## What the search overlooks -/

/-- The statements that the search for jumps goes on with. -/
def searchedStatements : Construct Node → List Node
  | .block items => items
  | .deferStmt body => body
  | .ifStmt _ thenBranch otherwise => thenBranch ++ otherwise.toList
  | .guardStmt _ otherwise => otherwise
  | .whileStmt _ body => body
  | .repeatWhile body _ => body
  | .forEach _ _ body => body
  | .switchStmt _ cases => cases.flatMap Swift.SwitchCase.body
  | .doCatch body catches => body ++ catches.flatMap Swift.CatchClause.body
  | _ => []

/-- Whether a construct has open statements that the search for jumps does not look at. -/
def isOverlooked : Construct Node → Bool
  | .file _ => true
  | .typeDecl _ _ => true
  | .extensionDecl _ _ => true
  | .unknown _ _ => true
  | _ => false

variable {place : Place}

theorem hasJump_iff : hasJump node = true ↔
    (jump? node.construct).isSome = true ∨
      ∃ part ∈ searchedStatements node.construct, hasJump part = true := by
  obtain ⟨construct, range⟩ := node
  rw [hasJump, Node.fold_mk]
  have hfold (part : Node) : Node.fold _ part = hasJump part := rfl
  cases construct with
  | ifStmt condition thenBranch otherwise =>
    cases otherwise <;> simp [Construct.map, jump?, searchedStatements, hfold]
  | switchStmt subject cases =>
    change (cases.map (Swift.SwitchCase.map hasJump)).any (·.body.any id) = true ↔ _
    simp only [jump?, searchedStatements, Swift.SwitchCase.map, List.any_map, List.any_eq_true,
      Function.comp_apply]
    grind
  | doCatch body catches =>
    change ((body.map hasJump).any id ||
      (catches.map (Swift.CatchClause.map hasJump)).any (·.body.any id)) = true ↔ _
    simp only [jump?, searchedStatements, Swift.CatchClause.map, List.any_map, List.any_eq_true,
      Bool.or_eq_true, Function.comp_apply]
    grind
  | _ => simp [Construct.map, jump?, searchedStatements, hfold]

/-- The search goes on with the open statements, or with the block they are in, unless the construct
is overlooked. -/
theorem hasJump_of_open (hpart : part ∈ openStatements lambdas node.construct)
    (hlooked : isOverlooked node.construct = false) (h : hasJump part = true) :
    hasJump node = true := by
  have found (hsearched : part ∈ searchedStatements node.construct) : hasJump node = true :=
    hasJump_iff.2 (.inr ⟨part, hsearched, h⟩)
  cases hc : node.construct with
  | file | typeDecl | extensionDecl | unknown => rw [hc] at hlooked; cases hlooked
  | block items =>
    rw [hc] at hpart found
    refine found ?_
    simp only [openStatements] at hpart
    split at hpart
    · exact hpart
    · cases hpart
  | ifStmt condition thenBranch otherwise =>
    rw [hc] at hpart
    rcases List.mem_append.1 hpart with hthen | helse
    · refine found ?_
      rw [hc]
      split at hthen
      · exact List.mem_append_left _ hthen
      · cases hthen
    · obtain ⟨branch, hbranch, hitem⟩ := List.mem_flatMap.1 helse
      have hin : branch ∈ searchedStatements node.construct := by
        rw [hc]
        exact List.mem_append_right _ hbranch
      refine hasJump_iff.2 (.inr ⟨branch, hin, ?_⟩)
      unfold elseItems at hitem
      split at hitem
      · next items hblock =>
        refine hasJump_iff.2 (.inr ⟨part, ?_, h⟩)
        rw [hblock]
        exact hitem
      · rw [← List.mem_singleton.1 hitem]
        exact h
  | switchStmt subject cases =>
    rw [hc] at hpart found
    obtain ⟨case, hcase, hstatement⟩ := List.mem_flatMap.1 hpart
    exact found (List.mem_flatMap.2 ⟨case, hcase, Statement.withoutLastBreak_subset _ hstatement⟩)
  | guardStmt | whileStmt | repeatWhile | forEach | doCatch =>
    rw [hc] at hpart found
    exact found hpart
  | _ => rw [hc] at hpart; cases hpart

/-- The jump that a statement leaves is hidden from the search only in what is overlooked. -/
theorem Leaves.exists_overlooked (h : Leaves search place node) (hjump : hasJump node = false) :
    ∃ hidden inner, (hidden = node ∨ hidden.StandsIn .statement node) ∧
      isOverlooked hidden.construct = true ∧ Leaves search inner hidden := by
  induction h with
  | @jump place node kind hkind _ _ =>
    rw [hasJump_iff.2 (.inl (by rw [hkind]; rfl))] at hjump
    cases hjump
  | @part place node part hpart hleaves ih =>
    cases hlooked : isOverlooked node.construct with
    | true => exact ⟨node, place, .inl rfl, hlooked, .part hpart hleaves⟩
    | false =>
      have hquiet : hasJump part = false :=
        Bool.eq_false_iff.2 fun hfound =>
          absurd (hasJump_of_open hpart hlooked hfound) (by simp [hjump])
      obtain ⟨hidden, inner, hin, hhidden, hleft⟩ := ih hquiet
      have hstands := standsIn_of_mem_openStatements hpart
      refine ⟨hidden, inner, .inr ?_, hhidden, hleft⟩
      rcases hin with rfl | hin
      · exact hstands
      · exact hin.trans hstands

/-! ## Bindings -/

theorem hasJump_of_safeLet {name : String} {value : Node} {hasElse : Bool}
    (h : bindingStyle name value thenBranch hasElse = .safeLet) :
    ∀ statement ∈ thenBranch, hasJump statement = false := by
  unfold bindingStyle at h
  split at h
  · cases h
  · split at h
    · next hcalm =>
      simp only [Bool.and_eq_true, Bool.not_eq_true', List.any_eq_false] at hcalm
      intro statement hstatement
      exact Bool.eq_false_iff.2 (hcalm.2 statement hstatement)
    · cases h

/-- A reached binding has the form that its style asks for. -/
theorem outcome_ifLet (hplace : place.Matches visit.state.surroundings)
    (hrole : visit.role = .statement)
    (hc : visit.node.construct = .ifStmt (.binding name value bindingRange) thenBranch otherwise) :
    ∃ lowered body elseBody,
      ((descend (height + 1)).outcome context visit).1 =
          [Statement.bindingShape (bindingStyle name value thenBranch otherwise.isSome)
            (identifier name) lowered body elseBody bindingRange visit.node.range] ∧
        ShowsJumps .outsideLambdas height place thenBranch body := by
  have below := descend_showsJumps context .outsideLambdas height
  obtain ⟨⟨lowered, body, elseBody, hmade, hparts⟩, -⟩ :=
    Statement.ifLet_bindingShape place visit.node.range below name value bindingRange thenBranch
      otherwise visit.state hplace
  refine ⟨lowered, body, elseBody, ?_, hparts.shows⟩
  rw [← hmade]
  simp only [descend_succ, Descent.outcome, hrole, Descent.above, lowerStatement, hc]
  rfl

end Lowering

/-! ## Conversion -/

namespace Conversion

open Lowering (Place Visit BindingStyle bindingStyle identifier Leaves isOverlooked)

/-- `value?.let { name -> body }`. -/
def safeLet (value : Kotlin.Node) (name : String) (body : List Kotlin.Node)
    (range : Option SourceRange) : Kotlin.Node :=
  Lowering.Statement.applied ⟨.member value "let" true, range⟩ [name] body range

theorem eq_of_bindingShape_eq_safeLet
    (h : Lowering.Statement.bindingShape style name value thenBranch elseBranch bindingRange range =
      safeLet lowered written body range) : style = .safeLet ∧ thenBranch = body := by
  cases style with
  | safeLet =>
    simp only [Lowering.Statement.bindingShape, safeLet, Lowering.Statement.applied] at h
    exact ⟨rfl, by simp_all⟩
  | smartCast => simp [Lowering.Statement.bindingShape, safeLet, Lowering.Statement.applied,
      Lowering.Statement.ifNode] at h
  | scopedVal => simp [Lowering.Statement.bindingShape, safeLet, Lowering.Statement.applied] at h

/-- A binding that is reached becomes a `let` exactly if that is its style. A jump then surfaces in
the lambda exactly if some statement of the branch leaves one, and such a statement has it in a node
of an unknown kind, a type, an extension or a file. -/
theorem let_traps_hidden_jumps_only {settings : Settings} {dump : Dump.Node} {height : Nat}
    {place : Place} {visit : Visit} (h : Reaches settings dump height place visit)
    {name : String} {value : Swift.Node} {bindingRange : Option SourceRange}
    {thenBranch : List Swift.Node} {otherwise : Option Swift.Node}
    (hc : visit.node.construct = .ifStmt (.binding name value bindingRange) thenBranch otherwise) :
    (bindingStyle name value thenBranch otherwise.isSome = .safeLet ↔
      ∃ lowered body, Becomes settings dump height visit
        (safeLet lowered (identifier name) body visit.node.range)) ∧
    ∀ lowered body, Becomes settings dump height visit
        (safeLet lowered (identifier name) body visit.node.range) →
      ((∃ jump : Kotlin.Node, jump.construct.jump?.isSome = true ∧
          ∃ statement ∈ body, jump.SurfacesIn false statement) ↔
        ∃ statement ∈ thenBranch, Leaves .outsideLambdas place statement) ∧
      ∀ statement ∈ thenBranch, Leaves .outsideLambdas place statement →
        ∃ hidden inner, (hidden = statement ∨ hidden.StandsIn .statement statement) ∧
          isOverlooked hidden.construct = true ∧ Leaves .outsideLambdas inner hidden := by
  obtain ⟨below, rfl⟩ := h.exists_succ
  have hrole := h.role_eq_statement hc
  obtain ⟨bound, made, elseBody, hmade, hshows⟩ :=
    Lowering.outcome_ifLet h.matches_surroundings hrole hc
  have hstyle {lowered : Kotlin.Node} {body : List Kotlin.Node}
      (hbecomes : Becomes settings dump (below + 1) visit
        (safeLet lowered (identifier name) body visit.node.range)) :
      bindingStyle name value thenBranch otherwise.isSome = .safeLet ∧ made = body :=
    eq_of_bindingShape_eq_safeLet (List.singleton_inj.1 (hmade.symm.trans hbecomes.made_eq))
  refine ⟨⟨fun hsafe => ⟨bound, made, h.becomes ?_⟩, ?_⟩, ?_⟩
  · rw [hsafe] at hmade
    exact hmade
  · rintro ⟨lowered, body, hbecomes⟩
    exact (hstyle hbecomes).1
  · intro lowered body hbecomes
    obtain ⟨hsafe, rfl⟩ := hstyle hbecomes
    have hfits : ∀ statement ∈ thenBranch, statement.height ≤ below := by
      intro statement hstatement
      have hlt : statement.height < visit.node.height :=
        Swift.Node.height_lt_of_part (by simp [hc, Swift.Construct.parts, hstatement])
      have hle := h.height_le
      omega
    refine ⟨?_, fun statement hstatement hleaves =>
      hleaves.exists_overlooked (Lowering.hasJump_of_safeLet hsafe statement hstatement)⟩
    constructor
    · rintro ⟨jump, hjump, statement, hstatement, hsurfaces⟩
      obtain ⟨kind, hkind⟩ := Option.isSome_iff_exists.1 hjump
      exact hshows.sound ⟨statement, hstatement, jump, by rw [hkind]; rfl, hsurfaces⟩
    · intro hleaves
      obtain ⟨statement, hstatement, jump, hjump, hsurfaces⟩ := hshows.complete hfits hleaves
      exact ⟨jump, Option.isSome_of_any hjump, statement, hstatement, hsurfaces⟩

/-- `if let x = maybe()` with a break below a node of an unknown kind. -/
def hiddenBreak : Dump.Node :=
  ⟨"if_stmt", [], [
    ⟨"optional_binding", [("name", "x")],
      [⟨"call_expr", [], [⟨"declref_expr", [("name", "maybe")], [], none⟩], none⟩], none⟩,
    ⟨"brace_stmt", [], [
      ⟨"if_config_decl", [], [⟨"break_stmt", [], [], none⟩], none⟩], none⟩], none⟩

/-- The search does not see the break, which surfaces in the lambda. -/
theorem hiddenBreak_surfaces : ∃ height visit lowered body,
    Reaches {} hiddenBreak height {} visit ∧
    Becomes {} hiddenBreak height visit (safeLet lowered "x" body none) ∧
    ∃ jump : Kotlin.Node, jump.construct.jump?.isSome = true ∧
      ∃ statement ∈ body, jump.SurfacesIn false statement := by
  let stop : Swift.Node := ⟨.breakStmt, none⟩
  let unknown : Swift.Node := ⟨.unknown "if_config_decl" [stop], none⟩
  let value : Swift.Node := ⟨.call ⟨.reference "maybe" none, none⟩ [], none⟩
  let root : Swift.Node := ⟨.ifStmt (.binding "x" value none) [unknown] none, none⟩
  let found : List Diagnostic := [⟨.unrecognized "if_config_decl", none⟩]
  have hread : (Swift.Node.ofDump hiddenBreak).run [] = (root, found) := by with_unfolding_all rfl
  have hreaches : Reaches {} hiddenBreak root.height {}
      ⟨.statement, root, { diagnostics := found }⟩ := by
    unfold Reaches
    rw [hread]
    exact .root
  have hopen : stop ∈ Lowering.openStatements false unknown.construct := .head _
  have hleaves : Leaves .outsideLambdas {} unknown := .part hopen (.jump rfl rfl rfl)
  obtain ⟨hstyle, hsurfaces⟩ := let_traps_hidden_jumps_only hreaches rfl
  obtain ⟨lowered, body, hbecomes⟩ := hstyle.1 (by decide)
  exact ⟨_, _, lowered, body, hreaches, hbecomes,
    (hsurfaces lowered body hbecomes).1.2 ⟨unknown, by simp, hleaves⟩⟩

/-- In a loop, the lambda of the `let` holds the break, and no error tells of it. -/
theorem hiddenBreak_trapped_in_loop :
    let dump : Dump.Node := ⟨"source_file", [], [⟨"while_stmt", [], [
      ⟨"boolean_literal_expr", [("value", "true")], [], none⟩,
      ⟨"brace_stmt", [], [hiddenBreak], none⟩], none⟩], none⟩
    (ofDump {} dump).kotlin =
      ⟨.file [⟨.whileStmt (.literal (.bool true) none) [
        safeLet ⟨.call (.reference "maybe" none) [] none, none⟩ "x"
          [.comment "unrecognized construct: if_config_decl" none, ⟨.breakStmt, none⟩] none],
        none⟩], none⟩ ∧
    (ofDump {} dump).diagnostics = [⟨.unrecognized "if_config_decl", none⟩] := by
  constructor <;> with_unfolding_all rfl

end Conversion

end SwiftToKotlin
