import SwiftToKotlin.Proofs.Lowering.Jumps.Statement

/-!
# Jumps among members

The members of a type or an extension show what they leave; stored properties and enum cases leave
nothing, wherever they go. With that every construct is covered: what is made of a tree shows
exactly the jumps that the tree leaves.
-/

namespace SwiftToKotlin.Lowering

open Swift (Node TypeDecl EnumCaseDecl)

variable {descent : Descent}

variable (place : Place) (range : Option SourceRange)

/-- Statements that never leave a jump can be lowered in another way. -/
theorem Shows.of_filter {place : Place} {nodes : List Node} {quiet : Node → Bool}
    (hquiet : ∀ node, quiet node = true → ¬ Leaves search place node)
    (h : Shows (∀ node ∈ nodes.filter (!quiet ·), node.height ≤ height)
      (∃ node ∈ nodes.filter (!quiet ·), Leaves search place node) shown) :
    Shows (∀ node ∈ nodes, node.height ≤ height) (∃ node ∈ nodes, Leaves search place node)
      shown := by
  refine h.congr (fun hfits node hnode => hfits node (List.mem_filter.1 hnode).1) ?_ Iff.rfl
  constructor
  · rintro ⟨node, hnode, hleaves⟩
    refine ⟨node, List.mem_filter.2 ⟨hnode, ?_⟩, hleaves⟩
    cases hq : quiet node with
    | false => rfl
    | true => exact absurd hleaves (hquiet node hq)
  · rintro ⟨node, hnode, hleaves⟩
    exact ⟨node, (List.mem_filter.1 hnode).1, hleaves⟩

variable (below : descent.ShowsJumps context search height)

include below

/-! ## Types -/

namespace TypeBody

omit below in
@[simp] theorem findsAmong_nodes {members : Members} {range : Option SourceRange} :
    search.FindsAmong (members.nodes range) ↔ search.FindsAmong members.all := by
  unfold Members.nodes Members.all
  split
  · next hempty => simp [List.isEmpty_iff.1 hempty]
  · simp

theorem shows_members (scope : Scope) (nodes) :
    ReturnsAt context place (members descent scope nodes) fun made =>
      ShowsJumps search height { place with owner := scope.owner } nodes made.all := by
  have hmember (node : Node) : ReturnsAt context { place with owner := scope.owner }
      (memberOf descent node) fun made => Shows (node.height ≤ height)
        (Leaves search { place with owner := scope.owner } node) (search.FindsAmong made.2) :=
    (below.statement _ node).bind fun _ hmade => .pure hmade
  refine ReturnsAt.withScope (.inBlock ?_)
  refine (ReturnsAt.mapM nodes fun node _ => hmember node).bind fun lowered hlowered =>
    .pure (hlowered.congr id Iff.rfl ?_)
  rw [← Kotlin.Search.findsAmong_flatMap]
  simp only [Members.all, Kotlin.Search.FindsAmong, mem_sorted]

theorem calm_constructorProperties (nodes) :
    Returns context (constructorProperties descent nodes) fun params =>
      ∀ param ∈ params, ¬ search.FindsAmong param.parts := by
  induction nodes with
  | nil => exact .pure (by simp)
  | cons node rest ih =>
    unfold constructorProperties
    split
    · next decl _ =>
      have hparam : Returns context (constructorProperty descent decl node.range) fun param =>
          ¬ search.FindsAmong param.parts :=
        .after fun _ => .after fun _ => .after fun _ =>
          (Returns.forall_optionM decl.init (calm_kept below)).bind fun _ hvalue =>
            .pure (by simpa [Kotlin.Param.parts, Kotlin.Search.FindsAmong] using hvalue)
      exact hparam.bind fun _ hfirst => ih.bind fun _ hothers =>
        .pure (List.forall_mem_cons.2 ⟨hfirst, hothers⟩)
    · exact ih

omit below in
theorem not_leaves_of_isStoredProperty {place : Place} (h : isStoredProperty node = true) :
    ¬ Leaves search place node := by
  unfold isStoredProperty at h
  split at h
  · next decl hc => exact not_leaves_of_quiet hc rfl rfl
  · cases h

theorem shows_dataClass (decl : TypeDecl Node) :
    ReturnsAt context place (dataClass descent decl range) fun made =>
      ShowsJumps search height { place with owner := .type } decl.members [made] := by
  unfold dataClass
  rw [List.partition_eq_filter_filter]
  refine (show ReturnsAt context place _ fun made =>
      (∀ param ∈ made.1, ¬ search.FindsAmong param.parts) ∧
        ShowsJumps search height { place with owner := .type } decl.members made.2.all from
    .inBlock ?_).bind fun _ hmade => .after keeps_types fun _ => .pure (hmade.2.congr id Iff.rfl ?_)
  · refine (ReturnsAt.withScope (.of_returns (calm_constructorProperties below _)
      (keeps_constructorProperties below.follows _))).bind fun _ hparams =>
        (shows_members place below (.type decl.name) _).bind fun _ hmembers => .pure ⟨hparams, ?_⟩
    exact hmembers.of_filter fun _ => not_leaves_of_isStoredProperty
  · exact Kotlin.Search.findsAmong_classDef hmade.1 (by simp) findsAmong_nodes

omit below in
theorem not_finds_equality (className : String) (stored) :
    ¬ search.FindsAmong [equalsMember className stored range, hashCodeMember stored range] := by
  simp [equalsMember, hashCodeMember, Kotlin.Param.parts]

theorem shows_classWithEquality (decl : TypeDecl Node) :
    ReturnsAt context place (classWithEquality descent decl range) fun made =>
      ShowsJumps search height { place with owner := .type } decl.members [made] := by
  refine .after (stackDiscipline.keepsStatement (stackDiscipline.warn _ _)) fun _ =>
    (shows_members place below (.type decl.name) decl.members).bind fun members hmembers =>
      .after keeps_types fun _ => .pure (hmembers.congr id Iff.rfl ?_)
  have hequality (className : String) (stored : List String) :
      search.FindsAmong ((members.instances ++
        [equalsMember className stored range, hashCodeMember stored range]) ++ members.statics) ↔
      search.FindsAmong (members.instances ++ members.statics) := by
    simp only [Kotlin.Search.findsAmong_append, not_finds_equality, or_false]
  simpa [Members.all] using hequality _ _

theorem shows_structDecl (decl : TypeDecl Node) :
    ReturnsAt context place (structDecl descent decl range) fun made =>
      ShowsJumps search height { place with owner := .type } decl.members [made] := by
  refine .after keeps_types fun _ => ?_
  split
  · exact shows_dataClass place range below decl
  · exact shows_classWithEquality place range below decl

theorem shows_classDecl (decl : TypeDecl Node) :
    ReturnsAt context place (classDecl descent decl range) fun made =>
      ShowsJumps search height { place with owner := .type } decl.members [made] :=
  .after keeps_types fun _ => (shows_members place below (.type decl.name) decl.members).bind
    fun _ hmembers => .pure (hmembers.congr id Iff.rfl (by simp))

theorem shows_protocolDecl (decl : TypeDecl Node) :
    ReturnsAt context place (protocolDecl descent decl range) fun made =>
      ShowsJumps search height { place with owner := .protocol } decl.members [made] :=
  (shows_members place below .protocol decl.members).bind fun _ hmembers =>
    .pure (hmembers.congr id Iff.rfl (by simp))

theorem shows_extensionMember (node : Node) :
    ReturnsAt context place (extensionMember descent node) fun made =>
      Shows (node.height ≤ height)
        (Leaves search
          { place with owner := if isNestedType node then .file else place.owner } node)
        (search.FindsAmong made) := by
  unfold extensionMember
  split
  · exact (below.statement _ node).withScope
  · exact below.statement place node

/-- The members of an extension are at their own places: types in it move to the file. -/
theorem shows_extensionDecl (extended : String) (nodes) :
    ReturnsAt context place (extensionDecl descent extended nodes range) fun made =>
      Shows (∀ node ∈ nodes, node.height ≤ height)
        (∃ node ∈ nodes,
          Leaves search (place.within (.extensionDecl extended nodes) .statement node) node)
        (search.FindsAmong made) := by
  have hmembers (receiver : Kotlin.Ty) : ReturnsAt context place
      (withScope (.extension receiver extended) <| inBlock do
        return (← nodes.mapM (extensionMember descent)).flatten) fun made =>
      Shows (∀ node ∈ nodes, node.height ≤ height)
        (∃ node ∈ nodes,
          Leaves search (place.within (.extensionDecl extended nodes) .statement node) node)
        (search.FindsAmong made) := by
    refine ReturnsAt.withScope (.inBlock ?_)
    refine (ReturnsAt.mapM nodes fun node _ => shows_extensionMember _ below node).bind
      fun _ hmade => .pure (hmade.congr id Iff.rfl Kotlin.Search.findsAmong_flatten)
  have hreceiver : KeepsOuter (extensionReceiver extended range) :=
    keeps_extensionReceiver
      (fun ty range => stackDiscipline.keepsStatement (stackDiscipline.lowerTy ty range)) _ _
  refine .after keeps_types fun _ => ?_
  split
  · exact .after (stackDiscipline.keepsStatement (stackDiscipline.warn _ _)) fun _ =>
      .after hreceiver hmembers
  · exact .after hreceiver hmembers

end TypeBody

/-! ## Enums -/

namespace Enum

theorem calm_rawValue (rawType : String) (next case) :
    Returns context (rawValue descent rawType next case range) fun made =>
      ¬ search.FindsAmong made.1 := by
  have hliteral (n : Int) : ¬ search.Finds (integerLiteral n range) := by
    unfold integerLiteral
    split <;> simp
  unfold rawValue
  split
  · exact (below.value _).bind fun _ hvalue => .pure (by simpa using hvalue)
  · split
    · exact .pure (by simp)
    · split
      · exact .pure (by simp [hliteral])
      · exact .pure (by simp)

theorem calm_entries (enum : String) (rawType next cases) :
    Returns context (entries descent enum rawType next cases) fun made =>
      ∀ entry ∈ made, ¬ search.FindsAmong entry.args := by
  induction cases generalizing next with
  | nil => exact .pure (by simp)
  | cons case rest ih =>
    refine .after fun _ => ?_
    split
    · exact (calm_rawValue _ below _ _ _).bind fun _ hargs => (ih _).bind fun _ hothers =>
        .pure (List.forall_mem_cons.2 ⟨hargs, hothers⟩)
    · rw [pure_bind]
      exact (ih _).bind fun _ hothers => .pure (List.forall_mem_cons.2 ⟨by simp, hothers⟩)

omit below in
theorem not_leaves_of_isEnumCase {place : Place} (h : isEnumCase node = true) :
    ¬ Leaves search place node := by
  unfold isEnumCase at h
  split at h
  · next case hc => exact not_leaves_of_quiet hc rfl rfl
  · cases h

theorem shows_ownMembers (name : String) (nodes) :
    ReturnsAt context place
      (TypeBody.members descent (.type name) (nodes.filter (!isEnumCase ·))) fun made =>
        ShowsJumps search height { place with owner := .type } nodes made.all := by
  intro state hstate
  obtain ⟨hmade, hsame⟩ := TypeBody.shows_members place below (.type name) _ state hstate
  exact ⟨hmade.of_filter fun _ => not_leaves_of_isEnumCase, hsame⟩

omit below in
theorem not_findsAmong_rawValueParam (rawType : String) :
    ¬ search.FindsAmong (rawValueParam rawType).parts := by
  simp [rawValueParam, Kotlin.Param.parts]

theorem shows_enumClass (decl : TypeDecl Node) :
    ReturnsAt context place (enumClass descent decl range) fun made =>
      ShowsJumps search height { place with owner := .type } decl.members [made] := by
  refine (ReturnsAt.of_returns (calm_entries below _ _ _ _)
    (keeps_entries below.follows _ _ _ _)).bind fun _ hentries =>
      (shows_ownMembers place below decl.name decl.members).bind fun _ hmembers =>
        .after keeps_types fun _ => .pure (hmembers.congr id Iff.rfl ?_)
  have hparams (rawType : Option String) : ∀ param ∈ rawType.toList.map rawValueParam,
      ¬ search.FindsAmong param.parts :=
    List.forall_mem_map.2 fun rawType _ => not_findsAmong_rawValueParam rawType
  exact Kotlin.Search.findsAmong_classDef (hparams _) hentries TypeBody.findsAmong_nodes

omit below in
theorem calm_caseClass (enum : String) (case) :
    MakesCalm context search (caseClass enum case range) := by
  have hfield (param : Swift.Param Node) : Returns context (caseField range param) fun made =>
      ¬ search.FindsAmong made.parts :=
    .after fun _ => .pure (by simp [Kotlin.Param.parts])
  exact .after fun _ => (Returns.forall_mapM _ hfield).bind fun _ hparams =>
    .pure (by simpa using hparams)

theorem shows_sealedClass (decl : TypeDecl Node) :
    ReturnsAt context place (sealedClass descent decl range) fun made =>
      ShowsJumps search height { place with owner := .type } decl.members [made] := by
  have hkeeps (case : EnumCaseDecl Node × Option SourceRange) :
      Keeps stackDiscipline.value (caseClass decl.name case.1 case.2) :=
    keeps_caseClass below.follows _ _ _
  have hcases : ReturnsAt context place ((placedCases decl.members).mapM fun case =>
      caseClass decl.name case.1 case.2) fun made => ∀ node ∈ made, ¬ search.Finds node :=
    .of_returns (.forall_mapM _ fun case => calm_caseClass case.2 _ case.1) (.mapM _ hkeeps)
  refine hcases.bind fun cases hlowered =>
    (shows_ownMembers place below decl.name decl.members).bind fun _ hmembers =>
      .after keeps_types fun _ => .pure (hmembers.congr id Iff.rfl ?_)
  have hnone : ¬ search.FindsAmong cases := by simpa [Kotlin.Search.FindsAmong] using hlowered
  simp [hnone]

theorem shows_enumDecl (decl : TypeDecl Node) :
    ReturnsAt context place (enumDecl descent decl range) fun made =>
      ShowsJumps search height { place with owner := .type } decl.members [made] := by
  refine .after keeps_types fun _ => ?_
  split
  · exact shows_enumClass place range below decl
  · exact shows_sealedClass place range below decl

end Enum

/-! ## Programs -/

theorem shows_typeDecl (kind : Swift.TypeKind) (decl : TypeDecl Node) :
    ReturnsAt context place (typeDecl descent kind decl range) fun made =>
      Shows (∀ node ∈ decl.members, node.height ≤ height)
        (∃ node ∈ decl.members,
          Leaves search (place.within (.typeDecl kind decl) .statement node) node)
        (search.FindsAmong [made]) := by
  cases kind with
  | structType => exact TypeBody.shows_structDecl place range below decl
  | classType => exact TypeBody.shows_classDecl place range below decl
  | protocolType => exact TypeBody.shows_protocolDecl place range below decl
  | enumType => exact Enum.shows_enumDecl place range below decl

theorem shows_unknown (kind : String) (children) :
    ReturnsAt context place (unknown descent kind children range)
      (ShowsJumps search height place
        (children.filter fun child => !child.construct.tag.isExpression)) :=
  (shows_sequence below place _).bind fun _ hrest =>
    .pure (hrest.congr id Iff.rfl (by simp [Expression.unknownComment]))

/-- A statement shows the jumps that it leaves, one level further up. -/
theorem shows_lowerStatement
    (hvalue : ∀ node, MakesCalm context search (Expression.lower descent node)) (node : Node) :
    ReturnsAt context place (lowerStatement descent node) fun made =>
      Shows (node.height ≤ height + 1) (Leaves search place node) (search.FindsAmong made) := by
  suffices h : ∀ state : State, place.Matches state.surroundings →
      Shows (node.height ≤ height + 1) (Leaves search place node)
        (search.FindsAmong (((lowerStatement descent node).run context).run state).1) from
    fun state hstate => ⟨h state hstate,
      (keeps_lowerStatement below.follows node context state).surroundings⟩
  have opened {construct : Swift.Construct Node} {action : Lower (List Kotlin.Node)}
      (hc : node.construct = construct) (hjump : jump? construct = none)
      (h : ReturnsAt context place action fun made =>
        Shows (∀ part ∈ openStatements search.lambdas construct, part.height ≤ height)
          (∃ part ∈ openStatements search.lambdas construct,
            Leaves search (place.within construct .statement part) part)
          (search.FindsAmong made)) (state : State) (hstate : place.Matches state.surroundings) :
      Shows (node.height ≤ height + 1) (Leaves search place node)
        (search.FindsAmong ((action.run context).run state).1) :=
    .of_open hc hjump (h state hstate).1
  have quiet {construct : Swift.Construct Node} {action : Lower (List Kotlin.Node)}
      (hc : node.construct = construct) (hjump : jump? construct = none)
      (hopen : openStatements search.lambdas construct = [])
      (h : Returns context action fun made => ¬ search.FindsAmong made) (state : State)
      (_ : place.Matches state.surroundings) :
      Shows (node.height ≤ height + 1) (Leaves search place node)
        (search.FindsAmong ((action.run context).run state).1) :=
    .of_not (not_leaves_of_quiet hc hjump hopen) (h state)
  have one {action : Lower Kotlin.Node} {P : List Kotlin.Node → Prop}
      (h : ReturnsAt context place action fun made => P [made]) :
      ReturnsAt context place (do return [← action]) P :=
    h.bind fun _ hmade => .pure hmade
  have calm {action : Lower Kotlin.Node} (h : MakesCalm context search action) :
      Returns context (do return [← action]) fun made => ¬ search.FindsAmong made :=
    h.bind fun _ hmade => .pure (by simpa using hmade)
  unfold lowerStatement
  split
  · next items hc =>
    exact opened hc rfl ((shows_statements below place items).bind fun _ hitems =>
      .pure (hitems.congr id Iff.rfl (by simp)))
  · next hc =>
    refine quiet hc rfl rfl (.after fun _ => ?_)
    split
    · exact .pure (by simp)
    · exact .pure (by simp)
  · next hc => exact quiet hc rfl rfl (calm (Function.calm_function below _ _))
  · next hc => exact quiet hc rfl rfl (calm (Function.calm_initializer below _ _ _))
  · next hc => exact quiet hc rfl rfl (calm (Function.calm_variableDecl below _ _))
  · next hc => exact opened hc rfl (one (shows_typeDecl place _ below _ _))
  · next hc => exact quiet hc rfl rfl (calm (calm_refuse _ _))
  · next hc => exact opened hc rfl (TypeBody.shows_extensionDecl place _ below _ _)
  · next hc => exact quiet hc rfl rfl (.after fun _ => .pure (by simp))
  · next hc => exact opened hc rfl (one (Statement.shows_block place _ below _))
  · next hc =>
    exact fun state hstate => (Statement.shows_returnStmt place _ below hc state hstate).1
  · next hc => exact opened hc rfl (one (Statement.shows_ifStmt place _ below _ _ _))
  · next hc => exact opened hc rfl (Statement.shows_guardStmt place _ below _ _)
  · next hc => exact opened hc rfl (one (Statement.shows_whileStmt place _ below _ _))
  · next hc => exact opened hc rfl (one (Statement.shows_repeatWhile place _ below _ _))
  · next hc => exact opened hc rfl (one (Statement.shows_forEach place _ below _ _ _))
  · next hc => exact opened hc rfl (one (Statement.shows_switchStmt place _ below _ _))
  · next hc =>
    exact fun state hstate => (Statement.shows_breakStmt place _ hc state hstate).1
  · next hc =>
    have hjump : jump? node.construct = some .continuing := by rw [hc]; rfl
    exact fun _ _ => .of_jump hjump (by simp [hc, Place.obstacle?])
  · next hc =>
    exact quiet hc rfl rfl ((below.value _).bind fun _ hvalue => .pure (by simpa using hvalue))
  · next hc => exact quiet hc rfl rfl (calm (calm_refuse _ _))
  · next hc => exact opened hc rfl (one (Statement.shows_doCatch place _ below _ _))
  · next hc => exact quiet hc rfl rfl (calm (Statement.calm_assign _ below _ _))
  · next hc =>
    refine quiet hc rfl rfl ?_
    split
    · exact calm (Statement.calm_compoundAssign _ below _ _ _)
    · exact calm (hvalue node)
  · next hc => exact quiet hc rfl rfl (.pure (by simp [Expression.invalidComment]))
  · next hc => exact opened hc rfl (shows_unknown place _ below _ _)
  · -- what is left are expressions
    have hvalue := calm (hvalue node)
    cases hc : node.construct with
    | literal | interpolated | reference | prefixUnary | call | member | implicitMember
    | subscript | arrayLiteral | dictionaryLiteral | tuple | closure | ternary | wrapped
    | cast => exact quiet hc rfl rfl hvalue
    | _ => grind

omit below in
/-- Lowering shows the jumps that are left in trees of the height that it has, and never others. -/
theorem descend_showsJumps (context search) (height : Nat) :
    (descend height).ShowsJumps context search height := by
  induction height with
  | zero =>
    refine ⟨descend_follows stackDiscipline 0, fun place node => .pure ?_, fun _ => .pure ?_⟩
    · exact ⟨by simp, fun hfits => absurd node.height_pos (Nat.not_lt.2 hfits)⟩
    · simp
  | succ height ih =>
    exact ⟨descend_follows stackDiscipline (height + 1), fun place =>
      shows_lowerStatement place ih (Expression.calm_lower ih), Expression.calm_lower ih⟩

end SwiftToKotlin.Lowering
