import SwiftToKotlin.Proofs.Lowering.Parallel

/-!
# Calls and expressions side by side

One lemma for each form of a call and of an expression. Where a form depends on a node itself and
not only on what becomes of it, the question is answered alike for the node with other ranges.
-/

namespace SwiftToKotlin.Lowering

open Swift (Node Argument Ty)

attribute [local simp] Kotlin.Construct.map

variable {c : Correspondence} (below : c.Below descent descent')

variable (callee : Node) (arguments : List (Argument Node)) (range : Option SourceRange)

/-! ## Calls -/

namespace Call

theorem labels_map (f) : labels (arguments.map (Argument.map f)) = labels arguments := by
  simp [labels, Argument.map]

@[simp] theorem suppressesLineEnd_relocate (move argument) :
    suppressesLineEnd (argument.map (Node.relocate move)) = suppressesLineEnd argument := by
  unfold suppressesLineEnd
  simp only [Argument.map, Node.construct_relocate]
  cases argument.value.construct with
  | literal value => rfl
  | _ => simp [Swift.Construct.carry, Swift.Construct.map, Swift.Construct.relocate]

@[simp] theorem isRawValueLookup_relocate (move : Relocation) (types : DeclaredTypes)
    (name : String) :
    isRawValueLookup (types.relocate move) name
        (arguments.map (Argument.map (Node.relocate move))) =
      isRawValueLookup types name arguments := by
  simp [isRawValueLookup, labels_map, Function.comp_def]

@[simp] theorem relocate_method (move receiver) (name : String) (safe : Bool) :
    (method receiver name safe range).relocate move =
      method (receiver.relocate move) name safe (move range) := by
  simp [method]

@[simp] theorem relocate_rawValueLookup (move) (enum : String) (value) :
    (rawValueLookup enum value range).relocate move =
      rawValueLookup enum (value.relocate move) (move range) := by
  simp [rawValueLookup]

theorem map_spacedParts (f) : ∀ values : List Kotlin.Node, (spacedParts values).map
    (Kotlin.TemplatePart.map f) = spacedParts (values.map f)
  | [] => rfl
  | [_] => rfl
  | value :: next :: rest => by
    have ih := map_spacedParts f (next :: rest)
    simp only [spacedParts, List.map_cons, Kotlin.TemplatePart.map] at ih ⊢
    rw [ih]

theorem parallel_warnOfDropped (argument) :
    Parallel c blocks id (warnOfDropped argument) (warnOfDropped (argument.map c.node)) := by
  unfold warnOfDropped
  rw [suppressesLineEnd_relocate]
  simp only [Argument.map, Node.range_relocate]
  cases argument.label with
  | none => exact .pure rfl
  | some label => exact .ite (.pure rfl) (parallel_report _ _)

theorem parallel_isText (node : Node) : Parallel c blocks id (isText node) (isText (c.node node)) :=
  (parallel_typeOf node).bind fun _ => .pure rfl

include below

theorem parallel_namedArguments (names) :
    Parallel c 0 (List.map (Kotlin.Argument.map c.made))
      (namedArguments descent names arguments)
      (namedArguments descent' names (c.arguments arguments)) := by
  induction arguments generalizing names with
  | nil => exact .pure rfl
  | cons argument rest ih =>
    exact (parallel_kept below argument.value).bind fun _ => (ih _).bind fun _ => .pure rfl

theorem parallel_withArguments (callee names) :
    ParallelNode c 0 (withArguments descent callee arguments names range)
      (withArguments descent' (callee.relocate c.move)
        (c.arguments arguments) names (c.move range)) := by
  have hlabels : (c.arguments arguments).any (·.label.isSome) =
      arguments.any (·.label.isSome) := by
    rw [List.any_map]
    rfl
  unfold withArguments
  rw [hlabels, List.getLast?_map, ← List.map_dropLast]
  cases arguments.getLast? with
  | none => exact .pure (by simp)
  | some last =>
    simp only [Option.map_some, Argument.map, isClosure_relocate]
    refine .ite ?_ ?_
    · exact (below.value last.value).bind fun _ =>
        (parallel_namedArguments below _ _).bind fun _ => .pure (by simp)
    · exact (parallel_namedArguments below _ _).bind fun _ => .pure (by simp)

theorem parallel_print :
    ParallelNode c 0 (print descent arguments range)
      (print descent' (c.arguments arguments) (c.move range)) := by
  have hvalues : ((c.arguments arguments).filter
      (·.label.isNone)).map Argument.value =
        ((arguments.filter (·.label.isNone)).map Argument.value).map c.node := by
    rw [List.filter_map, List.map_map, List.map_map]
    rfl
  unfold print
  simp only [hvalues]
  refine (Parallel.forM arguments parallel_warnOfDropped).bind fun _ =>
    (Parallel.mapM _ below.value).bind fun values => .pure ?_
  rcases values with _ | ⟨value, _ | ⟨next, rest⟩⟩
  · simp
  · simp
  · simp [map_spacedParts]

theorem parallel_construction (name : String) :
    ParallelNode c 0 (construction descent name callee arguments range)
      (construction descent' name (c.node callee) (c.arguments arguments) (c.move range)) := by
  refine parallel_types.bind fun types => ?_
  have hplain := parallel_withArguments below arguments range
    (.reference (identifier name) callee.range)
    (types.argumentNames (types.resolve name) (labels arguments))
  simp only [DeclaredTypes.resolve_relocate, isRawValueLookup_relocate, labels_map,
    DeclaredTypes.argumentNames_relocate, Node.range_relocate]
  refine .ite ?_ hplain
  cases arguments with
  | nil => exact hplain
  | cons argument rest => exact (below.value argument.value).bind fun _ => .pure (by simp)

theorem parallel_caseConstruction (enum case : String) :
    ParallelNode c 0 (caseConstruction descent enum case callee arguments range)
      (caseConstruction descent' enum case (c.node callee)
        (c.arguments arguments) (c.move range)) := by
  refine parallel_types.bind fun types => ?_
  rw [DeclaredTypes.caseArgumentNames_relocate, labels_map, Node.range_relocate]
  exact (parallel_caseReference enum case _).bind fun _ => parallel_withArguments below _ _ _ _

theorem parallel_converted (convert read : String) (value : Node) :
    ParallelNode c 0 (converted descent convert read value range)
      (converted descent' convert read (c.node value) (c.move range)) :=
  (parallel_isText value).bind fun _ => (below.value value).bind fun _ => .pure (by simp)

theorem parallel_knownMethod (form) (base : Node) :
    ParallelNode c 0 (knownMethod descent form base arguments range)
      (knownMethod descent' form (c.node base) (c.arguments arguments) (c.move range)) := by
  have hreversed :
      (c.arguments arguments).reverse.map Argument.value =
        (arguments.reverse.map Argument.value).map c.node := by
    rw [← List.map_reverse, List.map_map, List.map_map]
    rfl
  have hunlabelled : (c.arguments arguments).map
      (fun argument => { argument with label := none }) =
        (arguments.map fun argument => { argument with label := none }).map
          (Argument.map c.node) := by
    rw [List.map_map, List.map_map]
    rfl
  unfold knownMethod
  rw [chainTarget_relocate, hreversed, hunlabelled]
  obtain ⟨target, safe⟩ := chainTarget base
  refine (below.value target).bind fun receiver => ?_
  have hcallee : (⟨.member (receiver.relocate c.move) form.name safe, c.move range⟩ : Kotlin.Node) =
      Kotlin.Node.relocate c.move ⟨.member receiver form.name safe, range⟩ := by
    simp
  refine .ite ?_ ?_
  · exact (Parallel.mapM _ (parallel_kept below)).bind fun _ =>
      .pure (by rw [Kotlin.Node.relocate_call, ← hcallee]; rfl)
  · have hcall := parallel_withArguments below
      (arguments.map fun argument => { argument with label := none }) range
      ⟨.member receiver form.name safe, range⟩ none
    exact hcall

theorem parallel_plain :
    ParallelNode c 0 (plain descent callee arguments range)
      (plain descent' (c.node callee) (c.arguments arguments) (c.move range)) :=
  (below.value callee).bind fun _ => parallel_withArguments below _ _ _ _

theorem parallel_ofName (name : String) :
    ParallelNode c 0 (ofName descent name callee arguments range)
      (ofName descent' name (c.node callee) (c.arguments arguments) (c.move range)) := by
  refine parallel_types.bind fun types => ?_
  rw [DeclaredTypes.isType_relocate]
  refine .ite (parallel_construction below _ _ _ _) (.ite (parallel_print below _ _) ?_)
  have hplain := parallel_plain below callee arguments range
  cases conversion? name with
  | none => exact hplain
  | some forms =>
    rcases arguments with _ | ⟨⟨_ | label, value⟩, _ | ⟨second, rest⟩⟩
    · exact hplain
    · exact parallel_converted below _ _ _ _
    · exact hplain
    · exact hplain
    · exact hplain

theorem parallel_ofMember (base : Node) (name : String) :
    ParallelNode c 0 (ofMember descent base name callee arguments range)
      (ofMember descent' (c.node base) name (c.node callee)
        (c.arguments arguments) (c.move range)) := by
  refine (parallel_casePattern callee).bind fun found => ?_
  rcases found with _ | ⟨enum, case⟩
  · unfold id
    rw [chainTarget_relocate, labels_map]
    refine (parallel_isText (chainTarget base).1).bind fun onText => ?_
    dsimp only [id]
    split
    · exact parallel_knownMethod below _ _ _ _
    · exact parallel_plain below _ _ _
  · exact parallel_caseConstruction below _ _ _ _ _

theorem parallel_ofImplicitMember :
    ParallelNode c 0 (ofImplicitMember descent callee arguments range)
      (ofImplicitMember descent' (c.node callee) (c.arguments arguments) (c.move range)) := by
  refine (parallel_casePattern callee).bind fun found => ?_
  rcases found with _ | ⟨enum, case⟩
  · exact parallel_plain below _ _ _
  · exact parallel_caseConstruction below _ _ _ _ _

theorem parallel_lower :
    ParallelNode c 0 (Call.lower descent callee arguments range)
      (Call.lower descent' (c.node callee) (c.arguments arguments) (c.move range)) := by
  have hplain := parallel_plain below callee arguments range
  unfold Call.lower
  rw [Node.construct_relocate]
  cases callee.construct with
  | reference name ty => exact parallel_ofName below _ _ _ _
  | member base name => exact parallel_ofMember below _ _ _ _ _
  | implicitMember name ty => exact parallel_ofImplicitMember below _ _ _
  | _ => exact hplain

end Call

/-! ## Expressions -/

namespace Expression

@[simp] theorem relocate_property (move receiver type) (name : String) (safe : Bool) :
    (property receiver type name safe range).relocate move =
      property (receiver.relocate move) type name safe (move range) := by
  unfold property
  dsimp only
  split
  · simp
  · simp
  · split <;> simp
  · split <;> simp
  · simp

theorem parallel_implicitMember (name : String) (ty) :
    ParallelNode c blocks (implicitMember name ty range)
      (implicitMember name ty (c.move range)) := by
  refine parallel_types.bind fun types => parallel_surroundings.bind fun around => ?_
  rw [implicitEnum?_relocate]
  dsimp only [id]
  split
  · exact parallel_caseReference _ _ _
  · split
    · exact .pure (by simp)
    · exact parallel_refuse _ _

include below

theorem parallel_templatePart (segment : Node) :
    Parallel c 0 (Kotlin.TemplatePart.map c.made)
      (templatePart descent segment) (templatePart descent' (c.node segment)) := by
  have hvalue : Parallel c 0 (Kotlin.TemplatePart.map c.made)
      (do return .expr (← descent.value segment))
      (do return .expr (← descent'.value (c.node segment))) :=
    (below.value segment).bind fun _ => .pure rfl
  unfold templatePart
  rw [Node.construct_relocate]
  cases segment.construct with
  | literal value =>
    cases value with
    | string text => exact .pure rfl
    | _ => exact hvalue
  | _ => exact hvalue

theorem parallel_binary (operator : String) (lhs rhs : Node) :
    ParallelNode c 0 (binary descent operator lhs rhs range)
      (binary descent' operator (c.node lhs) (c.node rhs) (c.move range)) := by
  refine .ite (parallel_refuse _ _) ?_
  split
  · exact (below.value lhs).bind fun _ => (below.value rhs).bind fun _ => .pure (by simp)
  · exact parallel_refuse _ _

theorem parallel_prefixUnary (operator : String) (operand : Node) :
    ParallelNode c 0 (prefixUnary descent operator operand range)
      (prefixUnary descent' operator (c.node operand) (c.move range)) := by
  refine .ite ((below.value operand).bind fun _ => .pure (by simp)) ?_
  split
  · exact (below.value operand).bind fun _ => .pure (by simp)
  · exact parallel_refuse _ _

theorem parallel_tuple (items) :
    ParallelNode c 0 (tuple descent items range)
      (tuple descent' (items.map c.node) (c.move range)) := by
  have hall (items : List Node) (function : String) :
      ParallelNode c 0
        (do return .call (.reference function range) (← items.mapM descent.kept) range)
        (do
          let values ← (items.map c.node).mapM descent'.kept
          return .call (.reference function (c.move range)) values (c.move range)) :=
    (Parallel.mapM items (parallel_kept below)).bind fun _ => .pure (by simp)
  rcases items with _ | ⟨first, _ | ⟨second, _ | ⟨third, _ | ⟨fourth, rest⟩⟩⟩⟩
  · exact .pure (by simp)
  · exact below.value first
  · exact hall [first, second] "Pair"
  · exact hall [first, second, third] "Triple"
  · simp only [tuple, List.length_map]
    exact parallel_refuse _ _

theorem parallel_dictionaryEntry (entry) :
    ParallelNode c 0 (dictionaryEntry descent range entry)
      (dictionaryEntry descent' (c.move range)
        (entry.1.relocate c.move, entry.2.relocate c.move)) :=
  (below.value entry.1).bind fun _ => (parallel_kept below entry.2).bind fun _ => .pure (by simp)

theorem parallel_subscript (base index : Node) :
    ParallelNode c 0 (subscript descent base index range)
      (subscript descent' (c.node base) (c.node index) (c.move range)) := by
  refine (below.value index).bind fun _ => ?_
  rw [chainTarget_relocate]
  obtain ⟨target, safe⟩ := chainTarget base
  refine (below.value target).bind fun _ => .ite (.pure ?_) (.pure ?_)
  · simp
  · simp

theorem parallel_member (base : Node) (name : String) :
    ParallelNode c 0 (member descent base name range)
      (member descent' (c.node base) name (c.move range)) := by
  refine parallel_types.bind fun types => ?_
  rw [namedEnum?_relocate]
  split
  · exact parallel_caseReference _ _ _
  · rw [chainTarget_relocate]
    obtain ⟨target, safe⟩ := chainTarget base
    exact (parallel_typeOf target).bind fun _ => (below.value target).bind fun _ =>
      .pure (relocate_property _ _ _ _ _ _).symm

theorem parallel_wrapped (form) (wrappee : Node) :
    ParallelNode c 0 (wrapped descent form wrappee range)
      (wrapped descent' form (c.node wrappee) (c.move range)) := by
  refine (below.value wrappee).bind fun _ => ?_
  cases form with
  | forceUnwrap => exact .pure (by simp)
  | optionalTry => exact .pure (by simp)
  | _ => exact .pure rfl

theorem parallel_ternary (test thenValue elseValue : Node) :
    ParallelNode c 0 (ternary descent test thenValue elseValue range)
      (ternary descent' (c.node test) (c.node thenValue) (c.node elseValue) (c.move range)) :=
  (below.value test).bind fun _ => (parallel_kept below thenValue).bind fun _ =>
    (parallel_kept below elseValue).bind fun _ => .pure (by simp)

theorem parallel_lastStatement (node : Node) :
    ParallelNodes c 1 (lastStatement descent node) (lastStatement descent' (c.node node)) := by
  have hstatement := below.statement node
  unfold lastStatement
  rw [Node.construct_relocate]
  cases node.construct with
  | returnStmt value =>
    cases value with
    | none => exact .pure rfl
    | some value => exact (parallel_kept below value).inside.bind fun _ => .pure rfl
  | _ => exact hstatement

theorem parallel_closureBody (body) :
    ParallelNodes c 1 (closureBody descent body) (closureBody descent' (body.map c.node)) := by
  unfold closureBody
  rw [List.getLast?_map, ← List.map_dropLast]
  cases body.getLast? with
  | none => exact .pure rfl
  | some last =>
    exact (parallel_statements below _).inside.bind fun _ =>
      (parallel_lastStatement below last).bind fun _ => .pure List.map_append.symm

theorem parallel_closure (params body) :
    ParallelNode c 0 (closure descent params body range)
      (closure descent' params (body.map c.node) (c.move range)) := by
  have hparams : Parallel c 1 id (params.forM (declare · none)) (params.forM (declare · none)) := by
    have hmapped : Parallel c 1 id (params.forM (declare · none))
        ((params.map id).forM (declare · none)) :=
      .forM params fun name => parallel_declare name none
    rwa [List.map_id] at hmapped
  refine (hparams.bind fun _ => parallel_closureBody below body).inClosure.bind fun _ => .pure ?_
  simp

theorem parallel_lower (node : Node) :
    ParallelNode c 0 (Expression.lower descent node)
      (Expression.lower descent' (node.relocate c.move)) := by
  obtain ⟨construct, range⟩ := node
  rw [Node.relocate_mk]
  cases construct with
  | literal value => exact .pure (Kotlin.Node.relocate_literal _ _ _).symm
  | interpolated segments =>
    exact (Parallel.mapM segments (parallel_templatePart below)).bind fun _ => .pure (by simp)
  | reference name ty => exact parallel_reference name range
  | binary operator lhs rhs => exact parallel_binary below _ _ _ _
  | prefixUnary operator operand => exact parallel_prefixUnary below _ _ _
  | assign target value => exact parallel_refuse _ _
  | call callee arguments => exact Call.parallel_lower below _ _ _
  | member base name => exact parallel_member below _ _ _
  | implicitMember name ty => exact parallel_implicitMember _ _ _
  | subscript base index => exact parallel_subscript below _ _ _
  | arrayLiteral items =>
    exact (Parallel.mapM items (parallel_kept below)).bind fun _ => .pure (by simp)
  | dictionaryLiteral entries =>
    exact (Parallel.mapM entries (parallel_dictionaryEntry below range)).bind fun _ =>
      .pure (by simp)
  | tuple items => exact parallel_tuple below _ _
  | closure params body => exact parallel_closure below _ _ _
  | ternary test thenValue elseValue => exact parallel_ternary below _ _ _ _
  | wrapped form inner => exact parallel_wrapped below _ _ _
  | cast kind value ty =>
    exact (below.value value).bind fun _ => (parallel_lowerTy ty range).bind fun _ =>
      .pure (by simp)
  | invalid kind flaw => exact .pure (Kotlin.Node.relocate_comment _ _ _).symm
  | unknown kind children => exact .pure (Kotlin.Node.relocate_comment _ _ _).symm
  | _ => exact parallel_refuse _ _

end Expression

end SwiftToKotlin.Lowering
