import SwiftToKotlin.Proofs.Lowering.Jumps.Expression

/-!
# Jumps in statements

A jump that its place keeps shows itself, and the statements of a construct show in it what they
leave: those of loops and switch cases in a place of its own, all others in the place of the whole.
Assignments, functions and variables show no jump.
-/

namespace SwiftToKotlin.Lowering

open Swift (Node Ty)

variable {descent : Descent}

/-- What a jump leaves is up to its place. -/
theorem Shows.of_jump (hjump : jump? node.construct = some kind) (h : search.Finds made ↔
      search.kinds kind = true ∧ place.obstacle? node.construct = none) :
    Shows fits (Leaves search place node) (search.FindsAmong [made]) := by
  have hopen : openStatements search.lambdas node.construct = [] := by
    unfold jump? at hjump
    split at hjump
    case h_4 => cases hjump
    all_goals
      next hc => rw [hc]; rfl
  refine .of_iff ?_
  rw [leaves_iff, hopen]
  simp [h, hjump]

/-! ## Statements -/

namespace Statement

variable (place : Place) (range : Option SourceRange)

theorem shows_breakStmt (hc : node.construct = .breakStmt) :
    ReturnsAt context place (breakStmt range) fun made =>
      Shows fits (Leaves search place node) (search.FindsAmong [made]) := by
  have hjump : jump? node.construct = some .breaking := by rw [hc]; rfl
  refine .looking fun around haround => ?_
  split
  · next hcase =>
    have hbody := haround.inCase.1 hcase
    exact .of_returns (Returns.after fun _ => .pure
      (.of_jump hjump (by simp [hc, Place.obstacle?, hbody]))) (stackDiscipline.refuse _ _)
  · next hcase =>
    have hbody : place.body ≠ some .switchCase := fun hbody => hcase (haround.inCase.2 hbody)
    exact .pure (.of_jump hjump (by simp [hc, Place.obstacle?, hbody]))

variable (below : descent.ShowsJumps context search height)

include below

theorem shows_returnStmt (hc : node.construct = .returnStmt value) :
    ReturnsAt context place (returnStmt descent value range) fun made =>
      Shows fits (Leaves search place node) (search.FindsAmong [made]) := by
  have hjump : jump? node.construct = some .returning := by rw [hc]; rfl
  refine .looking fun around haround => ?_
  rw [haround.closures]
  split
  · next hclosures =>
    exact .of_returns (Returns.after fun _ => .pure
      (.of_jump hjump (by simp [hc, Place.obstacle?, Nat.ne_of_gt hclosures])))
      (stackDiscipline.refuse _ _)
  · next hclosures =>
    split
    · next value =>
      exact (ReturnsAt.of_returns (calm_kept below value) (keeps_kept below.follows value)).bind
        fun _ hvalue => .pure (.of_jump hjump (by simp [hc, Place.obstacle?, hclosures, hvalue]))
    · exact .pure (.of_jump hjump (by simp [hc, Place.obstacle?, hclosures]))

theorem shows_block (items) :
    ReturnsAt context place (block descent items range) fun made =>
      ShowsJumps search height place (if search.lambdas then items else []) [made] := by
  refine (shows_statements below place items).bind fun body hbody => .pure ?_
  have hfinds : search.FindsAmong [applied (.reference "run" range) [] body range] ↔
      search.lambdas = true ∧ search.FindsAmong body := by
    simp [applied]
  cases hlambdas : search.lambdas with
  | false => exact .of_not (by simp) (by simp [hfinds, hlambdas])
  | true => exact hbody.congr id Iff.rfl (by simp [hfinds, hlambdas])

theorem shows_elseBranch (branch : Node) :
    ReturnsAt context place (elseBranch descent branch)
      (ShowsJumps search height place (elseItems branch)) := by
  unfold elseBranch
  split
  · next items hc =>
    rw [elseItems, hc]
    exact shows_statements below place items
  · next hblock =>
    have hitems : elseItems branch = [branch] := by
      unfold elseItems
      split
      · next items hc => exact absurd hc (hblock items)
      · rfl
    intro state hstate
    obtain ⟨hshows, hsame⟩ := below.statement place branch state hstate
    rw [hitems]
    exact ⟨hshows.congr (by simp) (by simp) Iff.rfl, hsame⟩

theorem shows_optionalElse (otherwise) :
    ReturnsAt context place (optionalElse descent otherwise) fun made =>
      ShowsJumps search height place (otherwise.toList.flatMap elseItems) (made.getD []) ∧
        (otherwise = none → made = none) := by
  cases otherwise with
  | none => exact .pure ⟨.of_not (by simp) (by simp), fun _ => rfl⟩
  | some branch =>
    exact (shows_elseBranch place below branch).bind fun _ hbranch =>
      .pure ⟨by simpa using hbranch, by simp⟩

omit below in
@[simp] theorem finds_ifNode {elseBranch : Option (List Kotlin.Node)} {range : Option SourceRange} :
    search.Finds (ifNode condition thenBranch elseBranch range) ↔
      search.Finds condition ∨ search.FindsAmong (thenBranch ++ elseBranch.getD []) := by
  simp [ifNode]

omit below in
@[simp] theorem finds_isNull :
    search.Finds (isNull value range) ↔ search.Finds value := by
  simp [isNull]

omit below in
/-- The branch of a binding is hidden only if it is the lambda of a `let`. -/
theorem finds_bindingShape (hvalue : ¬ search.Finds value) {elseBranch : Option (List Kotlin.Node)}
    (helse : style = .safeLet → elseBranch = none) {range : Option SourceRange} :
    search.Finds (bindingShape style name value thenBranch elseBranch bindingRange range) ↔
      (search.lambdas = true ∨ style ≠ .safeLet) ∧ search.FindsAmong thenBranch ∨
        search.FindsAmong (elseBranch.getD []) := by
  cases style with
  | smartCast => simp [bindingShape, isNotNull, hvalue]
  | safeLet => simp [bindingShape, applied, hvalue, helse]
  | scopedVal =>
    simp [bindingShape, bound, Kotlin.WhenBranch.parts, Kotlin.WhenCondition.parts, hvalue, or_comm]

/-- What the parts of a binding show before they are put together. -/
structure BindingParts (search : Kotlin.Search) (height : Nat) (place : Place)
    (thenBranch : List Node) (otherwise : Option Node) (value : Kotlin.Node)
    (body : List Kotlin.Node) (elseBody : Option (List Kotlin.Node)) : Prop where
  calm : ¬ search.Finds value
  shows : ShowsJumps search height place thenBranch body
  showsElse : ShowsJumps search height place (otherwise.toList.flatMap elseItems)
    (elseBody.getD [])
  noElse : otherwise = none → elseBody = none

theorem ifLet_bindingShape (name : String) (value : Node) (bindingRange thenBranch otherwise) :
    ReturnsAt context place (ifLet descent name value bindingRange thenBranch otherwise range)
      fun made => ∃ lowered body elseBody,
        made = bindingShape (bindingStyle name value thenBranch otherwise.isSome)
          (identifier name) lowered body elseBody bindingRange range ∧
        BindingParts search height place thenBranch otherwise lowered body elseBody := by
  refine .after (keeps_boundType value) fun type => ?_
  refine (calm_valueAt below place value).bind fun lowered hvalue => ?_
  refine (show ReturnsAt context place _ (ShowsJumps search height place thenBranch) from
    .inBlock ?_).bind fun body hbody => (shows_optionalElse place below otherwise).bind
      fun elseBody helse => .pure ⟨lowered, body, elseBody, rfl, hvalue, hbody, helse.1, helse.2⟩
  split
  · exact .after (keepsOuter_narrow name type) fun _ => shows_statements below place thenBranch
  · exact .after (keepsOuter_declare name type) fun _ => shows_statements below place thenBranch

theorem shows_ifLet (name : String) (value : Node) (bindingRange thenBranch otherwise) :
    ReturnsAt context place (ifLet descent name value bindingRange thenBranch otherwise range)
      fun made => ShowsJumps search height place
        (openStatements search.lambdas
          (.ifStmt (.binding name value bindingRange) thenBranch otherwise)) [made] := by
  refine (ifLet_bindingShape place range below name value bindingRange thenBranch otherwise).mono ?_
  rintro _ ⟨lowered, body, elseBody, rfl, hparts⟩
  generalize hstyle : bindingStyle name value thenBranch otherwise.isSome = style
  have hthen : ShowsJumps search height place
      (if search.lambdas || !isSafeLet (.binding name value bindingRange) thenBranch otherwise then
        thenBranch else [])
      (if search.lambdas = true ∨ style ≠ .safeLet then body else []) := by
    simp only [isSafeLet, hstyle, Bool.or_eq_true, Bool.not_eq_true', decide_eq_false_iff_not]
    split
    · exact hparts.shows
    · exact .of_not (by simp) (by simp)
  -- a binding with another branch never becomes a `let`
  have hnone : style = .safeLet → otherwise = none := by
    rintro rfl
    cases otherwise with
    | none => rfl
    | some branch => exact absurd hstyle (bindingStyle_ne_safeLet _ _ _)
  refine (hthen.append hparts.showsElse).congr id Iff.rfl ?_
  simp [finds_bindingShape hparts.calm fun hsafe => hparts.noElse (hnone hsafe)]

theorem shows_ifStmt (condition thenBranch otherwise) :
    ReturnsAt context place (ifStmt descent condition thenBranch otherwise range) fun made =>
      ShowsJumps search height place
        (openStatements search.lambdas (.ifStmt condition thenBranch otherwise)) [made] := by
  cases condition with
  | expr test =>
    refine (calm_valueAt below place test).bind
      fun _ htest => (shows_statements below place thenBranch).bind fun _ hthen =>
        (shows_optionalElse place below otherwise).bind fun _ helse =>
          .pure ((hthen.append helse.1).congr ?_ ?_ ?_)
    · simp [openStatements, isSafeLet]
    · simp [openStatements, isSafeLet]
    · simp [htest]
  | binding name value bindingRange =>
    exact shows_ifLet place range below name value bindingRange thenBranch otherwise

theorem shows_guardLet (name : String) (value : Node) (bindingRange otherwise) :
    ReturnsAt context place (guardLet descent name value bindingRange otherwise range)
      (ShowsJumps search height place otherwise) := by
  refine .after (keeps_boundType value) fun type => ?_
  refine (calm_valueAt below place value).bind
    fun _ hvalue => (shows_statements below place otherwise).bind fun _ hbody => ?_
  split
  · exact .after (keepsOuter_narrow name type) fun _ =>
      .pure (hbody.congr id Iff.rfl (by simp [hvalue]))
  · exact .after (keepsOuter_declareFresh name type) fun _ =>
      .pure (hbody.congr id Iff.rfl (by simp [bound, hvalue]))

theorem shows_guardStmt (condition otherwise) :
    ReturnsAt context place (guardStmt descent condition otherwise range)
      (ShowsJumps search height place otherwise) := by
  cases condition with
  | expr test =>
    exact (calm_valueAt below place test).bind
      fun _ htest => (shows_statements below place otherwise).bind fun _ hbody =>
        .pure (hbody.congr id Iff.rfl (by simp [negation, htest]))
  | binding name value bindingRange =>
    exact shows_guardLet place range below name value bindingRange otherwise

theorem shows_loopBody (body) :
    ReturnsAt context place (loopBody descent body)
      (ShowsJumps search height (place.enter .loop) body) :=
  (shows_statements below (place.enter .loop) body).entering

theorem shows_whileStmt (test : Node) (body) :
    ReturnsAt context place (whileStmt descent test body range) fun made =>
      ShowsJumps search height (place.enter .loop) body [made] :=
  (calm_valueAt below place test).bind fun _ htest =>
    (shows_loopBody place below body).bind fun _ hbody =>
      .pure (hbody.congr id Iff.rfl (by simp [htest]))

theorem shows_repeatWhile (body) (test : Node) :
    ReturnsAt context place (repeatWhile descent body test range) fun made =>
      ShowsJumps search height (place.enter .loop) body [made] :=
  (shows_loopBody place below body).bind fun _ hbody =>
    (calm_valueAt below place test).bind fun _ htest =>
      .pure (hbody.congr id Iff.rfl (by simp [htest]))

theorem shows_forEach (binder : String) (sequence : Node) (body) :
    ReturnsAt context place (forEach descent binder sequence body range) fun made =>
      ShowsJumps search height (place.enter .loop) body [made] := by
  refine .after (keeps_typeOf sequence) fun _ =>
    (calm_valueAt below place sequence).bind
      fun _ hiterable => ?_
  refine (show ReturnsAt context place _ (ShowsJumps search height (place.enter .loop) body) from
    .inBlock ?_).bind fun _ hbody => .pure (hbody.congr id Iff.rfl (by simp [hiterable]))
  split
  · exact .after (keepsOuter_declare _ _) fun _ => shows_loopBody place below body
  · exact shows_loopBody place below body

theorem calm_whenCondition (pattern : Node) :
    Returns context (whenCondition descent pattern) fun condition =>
      ¬ search.FindsAmong condition.parts := by
  have hvalue : Returns context (do return .value (← descent.value pattern))
      fun condition : Kotlin.WhenCondition Kotlin.Node => ¬ search.FindsAmong condition.parts :=
    (below.value pattern).bind fun _ hpattern =>
      .pure (by simpa [Kotlin.WhenCondition.parts] using hpattern)
  unfold whenCondition
  split
  · exact .after fun _ => .pure (by simp [Kotlin.WhenCondition.parts])
  · refine .after fun _ => ?_
    split
    · refine .after fun _ => ?_
      split
      · exact .after fun _ => .pure (by simp [Kotlin.WhenCondition.parts])
      · exact hvalue
    · exact hvalue

theorem shows_whenBranch (case) :
    ReturnsAt context place (whenBranch descent case) fun branch =>
      ShowsJumps search height (place.enter .switchCase) (withoutLastBreak case.body)
        branch.parts := by
  have hpatterns : ReturnsAt context place (case.patterns.mapM (whenCondition descent))
      fun conditions => ∀ condition ∈ conditions, ¬ search.FindsAmong condition.parts :=
    .of_returns (.forall_mapM _ (calm_whenCondition below))
      (.mapM _ (keeps_whenCondition below.follows))
  have hbody : ReturnsAt context place
      (withinCase true (descent.statements (withoutLastBreak case.body)))
      (ShowsJumps search height (place.enter .switchCase) (withoutLastBreak case.body)) :=
    (shows_statements below (place.enter .switchCase) (withoutLastBreak case.body)).entering
  refine hpatterns.bind fun conditions hconditions => hbody.bind fun _ hstatements =>
    .pure (hstatements.congr id Iff.rfl ?_)
  have hnone : ¬ search.FindsAmong (conditions.flatMap Kotlin.WhenCondition.parts) := by
    simpa using hconditions
  simp [Kotlin.WhenBranch.parts, hnone]

theorem shows_switchStmt (subject : Node) (cases) :
    ReturnsAt context place (switchStmt descent subject cases range) fun made =>
      ShowsJumps search height (place.enter .switchCase)
        (cases.flatMap fun case => withoutLastBreak case.body) [made] := by
  have hcases := ReturnsAt.mapM cases fun case _ => shows_whenBranch place below case
  refine .after (keeps_enumOf subject) fun enum =>
    (calm_valueAt below place subject).bind
      fun _ hsubject => ?_
  exact (hcases.surrounded fun _ haround => haround.expecting enum).bind fun _ hbranches =>
    .pure (.flatMap (hbranches.congr id Iff.rfl (by simp [hsubject])))

theorem shows_catchBlock (clause) :
    ReturnsAt context place (catchBlock descent clause) fun block =>
      ShowsJumps search height place clause.body block.body := by
  have hbody (name : String) : ReturnsAt context place
      (inBlock do
        declare name clause.ty
        descent.statements clause.body) (ShowsJumps search height place clause.body) :=
    (ReturnsAt.after (keepsOuter_declare _ _) fun _ =>
      shows_statements below place clause.body).inBlock
  unfold catchBlock
  split
  · exact .after (stackDiscipline.keepsStatement (stackDiscipline.lowerTy _ _)) fun _ =>
      (hbody _).bind fun _ hlowered => .pure hlowered
  · exact .after (Keeps.pure _) fun _ => (hbody _).bind fun _ hlowered => .pure hlowered

theorem shows_doCatch (body catches) :
    ReturnsAt context place (doCatch descent body catches range) fun made =>
      ShowsJumps search height place (body ++ catches.flatMap Swift.CatchClause.body) [made] := by
  have hcatches := ReturnsAt.mapM catches fun clause _ => shows_catchBlock place below clause
  refine (shows_statements below place body).bind fun _ hbody =>
    hcatches.bind fun blocks hblocks => .pure ?_
  have hall : ShowsJumps search height place (catches.flatMap Swift.CatchClause.body)
      (blocks.flatMap Kotlin.CatchBlock.body) :=
    .flatMap (hblocks.congr id Iff.rfl Kotlin.Search.findsAmong_flatMap)
  exact (hbody.append hall).congr id Iff.rfl (by simp)

theorem calm_assign (target value : Node) :
    MakesCalm context search (assign descent target value range) := by
  unfold assign
  split
  · exact below.value value
  · exact .after fun _ => .after fun _ => (calm_kept below value).surrounded.bind
      fun _ hvalue => (below.value target).bind fun _ htarget => .pure (by simp [htarget, hvalue])

theorem calm_compoundAssign (operator : String) (target value : Node) :
    MakesCalm context search (compoundAssign descent operator target value range) := by
  refine (below.value target).bind fun _ htarget => (below.value value).bind fun _ hvalue => ?_
  split
  · exact .pure (by simp [htarget, hvalue])
  · exact .pure (by simp [htarget, hvalue])
  · exact calm_refuse _ _

end Statement

/-! ## Functions and variables -/

namespace Function

variable (below : descent.ShowsJumps context search height)

include below

theorem calm_param (range param) :
    Returns context (Function.param descent range param) fun made =>
      ¬ search.FindsAmong made.parts :=
  .after fun _ => .after fun _ => (Returns.forall_optionM param.defaultValue below.value).bind
    fun _ hvalue => .pure (by simpa [Kotlin.Param.parts, Kotlin.Search.FindsAmong] using hvalue)

/-- The body of a function is its own; only in the defaults of parameters could a jump surface. -/
theorem calm_function (decl range) : MakesCalm context search (function descent decl range) := by
  refine .after fun _ => ?_
  refine (show Returns context _ fun made => ∀ param ∈ made.1, ¬ search.FindsAmong param.parts from
    .inBlock ?_).bind fun _ hmade => .pure (by simpa using hmade)
  refine (Returns.forall_mapM _ (calm_param below range)).bind fun _ hparams => .after fun _ => ?_
  dsimp only
  split
  · split
    · exact .after fun _ => .pure hparams
    · exact .after fun _ => .pure hparams
  · exact .after fun _ => .pure hparams

theorem calm_initializer (params statements range) :
    MakesCalm context search (initializer descent params statements range) := by
  refine .after fun _ => ?_
  split
  · exact calm_refuse _ _
  · exact ((Returns.forall_mapM _ (calm_param below range)).bind fun _ hparams =>
      .after fun _ => .pure (by simpa using hparams)).inBlock

omit below in
theorem calm_computedProperty (decl ty range) :
    MakesCalm context search (computedProperty descent decl ty range) :=
  .after fun _ => .after fun _ => .after fun _ => .pure (by simp)

theorem calm_storedProperty (decl known ty range) :
    MakesCalm context search (storedProperty descent decl known ty range) := by
  have hinit := Returns.forall_optionM decl.init fun value =>
    show MakesCalm context search (initialValue descent decl value) from
      .after fun _ => .after fun _ => (calm_kept below value).surrounded
  exact hinit.bind fun _ hvalue => .after fun _ =>
    .pure (by simpa [Kotlin.Search.FindsAmong] using hvalue)

theorem calm_variableDecl (decl range) :
    MakesCalm context search (variableDecl descent decl range) := by
  refine .after fun _ => .after fun _ => ?_
  split
  · exact calm_refuse _ _
  · refine .after fun _ => ?_
    split
    · exact calm_storedProperty below _ _ _ _
    · exact .after fun _ => calm_computedProperty _ _ _

end Function

end SwiftToKotlin.Lowering
