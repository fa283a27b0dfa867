import SwiftToKotlin.Proofs.Lowering.Building.Expression

/-!
# How statements, functions and variables are lowered

Loops, switch cases and functions lower the statements of their bodies in a place of its own; all
other parts are lowered in the place of the whole. A break, a return, an initializer or a stored
property looks at its place, and may be refused there. What is declared goes by the names of the
source, up to the numbers of locals that would collide and the names that may be left out there.
-/

namespace SwiftToKotlin.Lowering

open Swift (Node Ty Role)
open Frame (Builds around_reference around_literal around_member around_binary)

variable {frame : Frame} {place : Place}

/-! ## Statements -/

namespace Statement

theorem around_applied (h : frame.Around made [callee])
    (hparams : ∀ name ∈ params, frame.given name) (body) :
    frame.Around (made ++ body) [applied callee params body range] :=
  .layer (by simp) (h.append (.around hparams (by simp)))

theorem builds_block (h : frame.AllAllowed place .statement items) :
    frame.MakesNode role place [] fun descent => block descent items range :=
  (builds_statements h).bind fun _ => .pure (around_applied (around_reference _) (by simp) _)

theorem builds_returnStmt (h : frame.AllAllowed place .value value.toList)
    (hrefused : 0 < place.closures → frame.refused ⟨.noEquivalent .returnInClosure, range⟩) :
    frame.MakesNode role place [] fun descent => returnStmt descent value range := by
  refine .refuseIf rfl (fun around haround hclosure => hrefused (haround.closures ▸ hclosure)) ?_
  split
  · exact (builds_kept (h _ (by simp))).bind fun _ => .pure (.around (by simp) (by simp))
  · exact .pure (.around (by simp) (by simp))

section Branches

variable {otherwise : Option Node} (helse : frame.AllAllowed place .statement otherwise.toList)
  (hitems : ∀ branch ∈ otherwise, ∀ items, branch.construct = .block items →
    frame.AllAllowed place .statement items)

/-- The statements of a block in an else branch belong to the branch. -/
theorem builds_elseBranch (h : frame.allowed place .statement branch)
    (hitems : ∀ items, branch.construct = .block items → frame.AllAllowed place .statement items) :
    frame.MakesNodes .statement place [] fun descent => elseBranch descent branch := by
  unfold elseBranch
  split
  · next items hc => exact builds_statements (hitems items hc)
  · exact .statement h

theorem around_ifNode (h : frame.Around made [condition]) (thenBranch elseBranch) :
    frame.Around (made ++ (thenBranch ++ elseBranch.getD []))
      [ifNode condition thenBranch elseBranch range] :=
  .layer (by simp) (h.append (.refl _))

theorem around_isNull (h : frame.Around made [value]) : frame.Around made [isNull value range] := by
  simpa [isNull] using around_binary .eq h (around_literal .null)

theorem bindingStyle_ne_safeLet (name : String) (value : Node) (thenBranch) :
    bindingStyle name value thenBranch true ≠ .safeLet := by
  unfold bindingStyle
  split <;> simp

/-- A binding with an else branch keeps it. -/
theorem around_bindingShape (hname : frame.given name) {elseBranch : Option (List Kotlin.Node)}
    (h : style = .safeLet → elseBranch = none) :
    frame.Around (value :: thenBranch ++ elseBranch.getD [])
      [bindingShape style name value thenBranch elseBranch bindingRange range] := by
  cases style with
  | smartCast =>
    have htest : frame.Around [value] [isNotNull value] := by
      simpa [isNotNull] using around_binary .ne (.refl [value]) (around_literal .null)
    exact around_ifNode htest thenBranch elseBranch
  | safeLet =>
    have hlet : frame.Around ([value] ++ thenBranch)
        [applied ⟨.member value "let" true, range⟩ [name] thenBranch range] :=
      around_applied (around_member (.refl _) _ _) (by simpa using hname) _
    rw [h rfl]
    exact .trans (.of_mem_iff (by simp)) hlet
  | scopedVal =>
    have hbound : frame.Around [value] [bound name value bindingRange] :=
      .around (by simpa using hname) (by simp)
    have hnull : frame.Around [] [.literal .null range] := around_literal _
    have hparts := (hbound.append hnull).append (.refl (elseBranch.getD [] ++ thenBranch))
    refine .layer (by simp) (.trans (.of_mem_iff ?_) (hparts.trans (.of_mem_iff ?_)))
    · simp [or_comm]
    · simp [Kotlin.WhenBranch.parts, Kotlin.WhenCondition.parts]

include helse hitems

theorem builds_ifLet (hname : frame.source name) (hvalue : frame.allowed place .value value)
    (hthen : frame.AllAllowed place .statement thenBranch) :
    frame.MakesNode .statement place [] fun descent =>
      ifLet descent name value bindingRange thenBranch otherwise range := by
  have hgiven := frame.naming.own hname
  refine .look (keeps_boundType value) fun type => (Builds.value hvalue).bind fun _ => ?_
  refine (show frame.MakesNodes .statement place [] _ from .inBlock ?_).bind fun _ => ?_
  · split
    · exact (Builds.narrow name type).first fun _ _ => builds_statements hthen
    · exact (Builds.declare name type).first fun _ _ => builds_statements hthen
  · cases otherwise with
    | none =>
      exact .pure (.trans (.of_mem_iff (by simp)) (around_bindingShape hgiven fun _ => rfl))
    | some branch =>
      simp only [optionalElse, bind_assoc]
      refine (builds_elseBranch (helse branch (by simp)) (hitems branch rfl)).bind fun _ =>
        .pure (.trans (.of_mem_iff (by simp)) (around_bindingShape hgiven fun h => ?_))
      exact absurd h (bindingStyle_ne_safeLet _ _ _)

theorem builds_ifStmt (hnames : ∀ name ∈ condition.names, frame.source name)
    (hcondition : frame.AllAllowed place .value condition.parts)
    (hthen : frame.AllAllowed place .statement thenBranch) :
    frame.MakesNode .statement place [] fun descent =>
      ifStmt descent condition thenBranch otherwise range := by
  cases condition with
  | expr test =>
    refine (Builds.value (hcondition test (by simp [Swift.Condition.parts]))).bind fun _ =>
      (builds_statements hthen).bind fun _ => ?_
    cases otherwise with
    | none =>
      exact .pure (.around (by simp) (by simp))
    | some branch =>
      simp only [optionalElse, bind_assoc]
      exact (builds_elseBranch (helse branch (by simp)) (hitems branch rfl)).bind fun _ =>
        .pure (.around (by simp) (by simp))
  | binding name value bindingRange =>
    exact builds_ifLet helse hitems (hnames name (by simp [Swift.Condition.names]))
      (hcondition value (by simp [Swift.Condition.parts])) hthen

end Branches

theorem builds_guardLet (hname : frame.source name) (hvalue : frame.allowed place .value value)
    (helse : frame.AllAllowed place .statement otherwise) :
    frame.MakesNodes .statement place [] fun descent =>
      guardLet descent name value bindingRange otherwise range := by
  refine .look (keeps_boundType value) fun type => (Builds.value hvalue).bind fun lowered => ?_
  refine (builds_statements helse).bind fun body => ?_
  split
  · exact (Builds.narrow name type).first fun _ _ =>
      .pure (by simpa using around_ifNode (around_isNull (.refl [lowered])) body none)
  · refine (Builds.declareFresh hname type).first fun written hwritten => .pure ?_
    have hbound : frame.Around [lowered] [bound written lowered bindingRange] :=
      .around (by simpa using hwritten) (by simp)
    have htest : frame.Around ([] ++ (body ++ []))
        [ifNode (isNull (.reference written range) range) body none range] :=
      around_ifNode (around_isNull (around_reference _)) body none
    simpa using hbound.append htest

theorem builds_guardStmt (hnames : ∀ name ∈ condition.names, frame.source name)
    (hcondition : frame.AllAllowed place .value condition.parts)
    (helse : frame.AllAllowed place .statement otherwise) :
    frame.MakesNodes .statement place [] fun descent =>
      guardStmt descent condition otherwise range := by
  cases condition with
  | expr test =>
    refine (Builds.value (hcondition test (by simp [Swift.Condition.parts]))).bind fun test =>
      (builds_statements helse).bind fun body => .pure ?_
    have htest : frame.Around [test] [negation test] := .around (by simp) (by simp)
    simpa using around_ifNode htest body none
  | binding name value bindingRange =>
    exact builds_guardLet (hnames name (by simp [Swift.Condition.names]))
      (hcondition value (by simp [Swift.Condition.parts])) helse

section Loops

variable (hbody : frame.AllAllowed (place.enter .loop) .statement body)

include hbody

theorem builds_loopBody : frame.MakesNodes role place [] fun descent => loopBody descent body :=
  (builds_statements hbody).entering (by simp)

theorem builds_whileStmt (htest : frame.allowed place .value test) :
    frame.MakesNode role place [] fun descent => whileStmt descent test body range :=
  (Builds.value htest).bind fun _ =>
    (builds_loopBody hbody).bind fun _ => .pure (.around (by simp) (by simp))

theorem builds_repeatWhile (htest : frame.allowed place .value test) :
    frame.MakesNode role place [] fun descent => repeatWhile descent body test range :=
  (builds_loopBody hbody).bind fun _ =>
    (Builds.value htest).bind fun _ => .pure (.around (by simp) (by simp))

theorem builds_forEach (hbinder : frame.source binder) {sequence : Node}
    (hsequence : frame.allowed place .value sequence) :
    frame.MakesNode role place [] fun descent => forEach descent binder sequence body range := by
  have hname : frame.given (if binder = "_" then "ignored" else identifier binder) := by
    split
    · exact frame.naming.supplied _ (by simp [suppliedNames])
    · exact frame.naming.own hbinder
  refine .look (keeps_typeOf sequence) fun _ => (Builds.value hsequence).bind fun _ => ?_
  refine (show frame.MakesNodes role place [] _ from .inBlock ?_).bind fun _ =>
    .pure (.around (by simpa using hname) (by simp))
  split
  · exact (Builds.declare _ _).first fun _ _ => builds_loopBody hbody
  · exact builds_loopBody hbody

end Loops

theorem builds_whenCondition (h : frame.allowed place .value pattern) :
    frame.Builds role place [] (fun descent => whenCondition descent pattern)
      Kotlin.WhenCondition.parts fun _ => True := by
  have hvalue : frame.Builds role place []
      (fun descent => do return .value (← descent.value pattern)) Kotlin.WhenCondition.parts
      fun _ => True :=
    (Builds.value h).bind fun _ => .pure (.refl _)
  unfold whenCondition
  split
  · exact .after (silent_lowerTy _ _) fun _ => .pure (.refl _)
  · refine .look (keeps_casePattern pattern) fun _ => ?_
    split
    · refine .look keeps_types fun _ => ?_
      split
      · exact (builds_caseName _ _).first fun _ _ => .pure (.refl _)
      · exact hvalue
    · exact hvalue

theorem withoutLastBreak_subset (body) : withoutLastBreak body ⊆ body := by
  unfold withoutLastBreak
  split
  · exact List.dropLast_subset _
  · exact List.Subset.refl _

theorem builds_whenBranch (hpatterns : frame.AllAllowed place .value case.patterns)
    (hbody : frame.AllAllowed (place.enter .switchCase) .statement (withoutLastBreak case.body)) :
    frame.Builds role place [] (fun descent => whenBranch descent case) Kotlin.WhenBranch.parts
      fun _ => True :=
  (Builds.mapM case.patterns fun pattern hmem =>
      builds_whenCondition (hpatterns pattern hmem)).bind fun _ =>
    ((builds_statements hbody).entering (by simp)).bind fun _ => .pure (.refl _)

theorem builds_switchStmt (hsubject : frame.allowed place .value subject)
    (hpatterns : ∀ case ∈ cases, frame.AllAllowed place .value case.patterns)
    (hbodies : ∀ case ∈ cases,
      frame.AllAllowed (place.enter .switchCase) .statement (withoutLastBreak case.body)) :
    frame.MakesNode role place [] fun descent => switchStmt descent subject cases range :=
  .look (keeps_enumOf subject) fun enum => (Builds.value hsubject).bind fun _ =>
    ((Builds.mapM cases fun case hcase =>
        builds_whenBranch (hpatterns case hcase) (hbodies case hcase)).expecting enum).bind fun _ =>
      .pure (.around (by simp) (by simp))

theorem builds_catchBlock (hname : ∀ name ∈ clause.name, frame.source name)
    (h : frame.AllAllowed place .statement clause.body) :
    frame.Builds role place [] (fun descent => catchBlock descent clause) Kotlin.CatchBlock.body
      fun block => frame.given block.name := by
  have hbody (name : String) : frame.MakesNodes role place [] fun descent => inBlock (do
      declare name clause.ty
      descent.statements clause.body) :=
    ((Builds.declare _ _).first fun _ _ => builds_statements h).inBlock
  have hgiven : frame.given (identifier (clause.name.getD "error")) := by
    cases hsome : clause.name with
    | none => exact frame.naming.supplied _ (by decide)
    | some name => exact frame.naming.own (hname name hsome)
  unfold catchBlock
  split
  · exact .after (silent_lowerTy _ _) fun _ => (hbody _).bind fun _ => .given (.refl _) hgiven
  · simp only [pure_bind]
    exact (hbody _).bind fun _ => .given (.refl _) hgiven

theorem builds_doCatch (hbody : frame.AllAllowed place .statement body)
    (hnames : ∀ name ∈ catches.filterMap Swift.CatchClause.name, frame.source name)
    (hcatches : ∀ clause ∈ catches, frame.AllAllowed place .statement clause.body) :
    frame.MakesNode role place [] fun descent => doCatch descent body catches range := by
  refine (builds_statements hbody).bind fun _ =>
    (Builds.mapM catches fun clause hclause =>
      builds_catchBlock (fun name hname => ?_) (hcatches clause hclause)).knowing fun _ hgiven =>
        .pure (.around (by simpa using hgiven) (by simp))
  exact hnames name (List.mem_filterMap.2 ⟨clause, hclause, hname⟩)

theorem builds_assign (h : frame.AllAllowed place .value [target, value]) :
    frame.MakesNode role place [] fun descent => assign descent target value range := by
  unfold assign
  split
  · exact .value (h value (by simp))
  · exact .look (keeps_enumOf target) fun _ => .look keeps_surroundings fun _ =>
      ((builds_kept (h value (by simp))).expecting _).bind fun _ =>
        (Builds.value (h target (by simp))).bind fun _ =>
          .pure (.around (by simp) (by simp [or_comm]))

/-- Every assignment operator has a rendering. -/
theorem exists_of_isAssignmentOperator (h : isAssignmentOperator operator = true)
    (hown : assignOp? operator = none) :
    ∃ op, spelledOutOp? operator = some op := by
  have hmem : operator ∈ ["+=", "-=", "*=", "/=", "%=", "&=", "|=", "^=", "<<=", ">>="] :=
    List.contains_iff_mem.1 h
  simp only [List.mem_cons, List.not_mem_nil, or_false] at hmem
  rcases hmem with rfl | rfl | rfl | rfl | rfl | rfl | rfl | rfl | rfl | rfl <;>
    simp_all [assignOp?, spelledOutOp?]

theorem builds_compoundAssign (hop : isAssignmentOperator operator = true)
    (h : frame.AllAllowed place .value [target, value]) :
    frame.MakesNode role place [] fun descent =>
      compoundAssign descent operator target value range := by
  refine (Builds.value (h target (by simp))).bind fun target =>
    (Builds.value (h value (by simp))).bind fun value => ?_
  split
  · exact .pure (.around (by simp) (by simp))
  · next op _ _ =>
    have hresult : frame.Around [target, value] [.binary op target value range] :=
      around_binary op (.refl [target]) (.refl [value])
    exact .pure (.layer (by simp)
      (.trans (.of_mem_iff (by simp)) ((Kotlin.BuiltAround.refl [target]).append hresult)))
  · next hown hspelled =>
    obtain ⟨op, hsome⟩ := exists_of_isAssignmentOperator hop hown
    rw [hspelled] at hsome
    cases hsome

end Statement

/-! ## Functions and variables -/

namespace Function

section Params

variable {params : List (Swift.Param Node)}
  (hnames : ∀ name ∈ params.map Swift.Param.name, frame.source name)
  (h : frame.AllAllowed place .value (params.flatMap Swift.Param.parts))

include hnames h

theorem builds_params :
    frame.Builds .statement place [] (fun descent => params.mapM (Function.param descent range))
      (List.flatMap Kotlin.Param.parts) fun made => ∀ param ∈ made, frame.given param.name := by
  refine Builds.mapM params fun param hparam => ?_
  have hvalue (value : Node) (hvalue : value ∈ param.defaultValue) :=
    h value (List.mem_flatMap.2 ⟨param, hparam, Option.mem_toList.2 hvalue⟩)
  have hname := frame.naming.own (hnames _ (List.mem_map_of_mem hparam))
  exact (Builds.declare _ _).first fun _ _ => .after (silent_lowerTy _ _) fun _ =>
    (Builds.optionM param.defaultValue fun value hsome => .value (hvalue value hsome)).bind fun _ =>
      .given (.of_mem_iff (by simp [Kotlin.Param.parts])) hname

end Params

section Bodies

variable (h : frame.AllAllowed (place.enter .function) .statement statements)

include h

theorem builds_body : frame.MakesNodes role place [] fun descent => body descent statements :=
  (builds_statements h).entering (by simp)

omit h in
theorem around_returning (nodes) : frame.Around nodes (returning nodes) := by
  unfold returning
  split
  · split
    · exact .around (by simp) (by simp)
    · exact .refl _
  · exact .refl _

theorem builds_returningBody :
    frame.MakesNodes role place [] fun descent => returningBody descent statements :=
  (builds_body h).bind fun _ => .pure (around_returning _)

end Bodies

theorem builds_function
    (hnames : ∀ name ∈ decl.name :: decl.params.map Swift.Param.name, frame.source name)
    (hparams : frame.AllAllowed place .value (decl.params.flatMap Swift.Param.parts))
    (hbody : frame.AllAllowed (place.enter .function) .statement (decl.body.getD [])) :
    frame.MakesNode role place [] fun descent => function descent decl range := by
  obtain ⟨hname, hparamNames⟩ := List.forall_mem_cons.1 hnames
  have hname := frame.naming.own hname
  refine .look keeps_surroundings fun _ => ?_
  refine (show frame.Builds role place [] _
      (fun made => made.1.flatMap Kotlin.Param.parts ++ made.2.2.getD [])
      fun made => ∀ param ∈ made.1, frame.given param.name from .inBlock ?_).knowing fun _ hgiven =>
    .pure (.around (by simpa [hname] using hgiven) (by simp))
  refine (builds_params hparamNames hparams).knowing fun params hgiven =>
    .after (fun _ _ hreport => Keeps.optionM _ fun _ => silent_lowerTy _ _ _ hreport) fun _ => ?_
  dsimp only
  split
  · next statements hsome =>
    rw [hsome] at hbody
    split
    · simp only [bind_map_left]
      exact (builds_returningBody hbody).bind fun _ => .given (.refl _) hgiven
    · simp only [bind_map_left]
      exact (builds_body hbody).bind fun _ => .given (.refl _) hgiven
  · simp only [pure_bind]
    exact .given (.of_mem_iff (by simp)) hgiven

theorem builds_initializer (hnames : ∀ name ∈ params.map Swift.Param.name, frame.source name)
    (hparams : frame.AllAllowed place .value (params.flatMap Swift.Param.parts))
    (hbody : frame.AllAllowed (place.enter .function) .statement (statements.getD []))
    (hrefused : place.owner ≠ .type →
      frame.refused ⟨.noEquivalent .initializerInExtension, range⟩) :
    frame.MakesNode role place [] fun descent => initializer descent params statements range := by
  refine .refuseIf rfl (fun around haround htype => hrefused fun howner => ?_) (.inBlock ?_)
  · have hisType := (around.scope.isType_iff).2 (haround.owner.trans howner)
    simp [hisType] at htype
  · refine (builds_params hnames hparams).knowing fun _ hgiven =>
      (Builds.optionM statements fun nodes hsome => builds_body fun node hnode =>
        hbody node (by rw [Option.mem_def.1 hsome]; exact hnode)).bind fun body => .pure ?_
    cases body <;> exact .around (by simpa using hgiven) (by simp)

section Variables

variable {decl : Swift.VariableDecl Node} (hname : frame.source decl.name)

theorem allAllowed_accessor? {inner : Place}
    (h : frame.AllAllowed inner .statement (decl.accessors.flatMap Swift.Accessor.parts)) (kind)
    {body : List Node} (hbody : body ∈ (accessor? decl kind).bind (·.body)) :
    frame.AllAllowed inner .statement body := by
  obtain ⟨accessor, hfound, hsome⟩ := Option.bind_eq_some_iff.1 hbody
  intro node hnode
  refine h node (List.mem_flatMap.2 ⟨accessor, List.mem_of_find?_eq_some hfound, ?_⟩)
  simpa [Swift.Accessor.parts, hsome]

include hname

theorem builds_computedProperty (h : frame.AllAllowed (place.enter .function) .statement
      (decl.accessors.flatMap Swift.Accessor.parts)) (ty) :
    frame.MakesNode role place [] fun descent => computedProperty descent decl ty range := by
  have hgiven := frame.naming.own hname
  refine .look keeps_surroundings fun _ =>
    (Builds.optionM _ fun _ hbody => builds_returningBody (allAllowed_accessor? h .get hbody)).bind
      fun getter =>
        (Builds.optionM _ fun _ hbody => builds_body (allAllowed_accessor? h .set hbody)).bind
          fun setter => .pure ?_
  cases getter <;> cases setter <;> exact .around (by simpa using hgiven) (by simp)

theorem builds_storedProperty (h : frame.AllAllowed place .value decl.init.toList) (known ty) :
    frame.MakesNode .statement place [] fun descent =>
      storedProperty descent decl known ty range := by
  have hgiven := frame.naming.own hname
  have hinit (value : Node) (hvalue : value ∈ decl.init) :
      frame.MakesNode .statement place [] fun descent => initialValue descent decl value :=
    .look keeps_types fun _ => .look keeps_surroundings fun _ =>
      (builds_kept (h value (Option.mem_toList.2 hvalue))).expecting _
  exact (Builds.optionM decl.init hinit).bind fun _ => (Builds.declare _ _).first fun _ _ =>
    .pure (.around (by simpa using hgiven) (by simp))

theorem builds_variableDecl (hinit : frame.AllAllowed place .value decl.init.toList)
    (haccessors : frame.AllAllowed (place.enter .function) .statement
      (decl.accessors.flatMap Swift.Accessor.parts))
    (hrefused : decl.isStored = true → place.owner = .extension →
      frame.refused ⟨.noEquivalent (.storedPropertyInExtension decl.name), range⟩) :
    frame.MakesNode .statement place [] fun descent => variableDecl descent decl range := by
  refine .look (keeps_variableType decl) fun _ =>
    .refuseIf rfl (fun around haround hstored => ?_) ?_
  · obtain ⟨hisStored, hreceiver⟩ := Bool.and_eq_true_iff.1 hstored
    exact hrefused hisStored (haround.owner ▸ (around.scope.isSome_receiver?_iff).1 hreceiver)
  · refine .after (fun _ _ hreport => Keeps.optionM _ fun _ => silent_lowerTy _ _ _ hreport)
      fun _ => ?_
    split
    · exact builds_storedProperty hname hinit _ _
    · exact (Builds.declare _ _).first fun _ _ => builds_computedProperty hname haccessors _

end Variables

end Function

end SwiftToKotlin.Lowering
