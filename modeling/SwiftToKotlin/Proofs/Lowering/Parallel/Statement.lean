import SwiftToKotlin.Proofs.Lowering.Parallel.Expression

/-!
# Statements side by side

One lemma for each form of a statement. Those that declare locals need an open block.
-/

namespace SwiftToKotlin.Lowering

open Swift (Node Ty)

attribute [local simp] Kotlin.Construct.map

variable {c : Correspondence} (below : c.Below descent descent')

namespace Statement

/-! ## Small trees -/

section Trees

variable (move : Relocation)

@[simp] theorem relocate_ifNode (condition thenBranch elseBranch range) :
    (ifNode condition thenBranch elseBranch range).relocate move =
      ifNode (condition.relocate move) (thenBranch.map (Kotlin.Node.relocate move))
        (elseBranch.map (List.map (Kotlin.Node.relocate move))) (move range) := by
  simp [ifNode]

theorem relocate_isNull (hnone : move none = none) (value range) :
    (isNull value range).relocate move = isNull (value.relocate move) (move range) := by
  simp [isNull, hnone]

theorem relocate_isNotNull (hnone : move none = none) (value) :
    (isNotNull value).relocate move = isNotNull (value.relocate move) := by
  simp [isNotNull, hnone]

@[simp] theorem relocate_negation (condition) :
    (negation condition).relocate move = negation (condition.relocate move) := by
  simp [negation]

@[simp] theorem relocate_bound (name : String) (value range) :
    (bound name value range).relocate move = bound name (value.relocate move) (move range) := by
  simp [bound, Kotlin.PropertyDef.map]

@[simp] theorem relocate_applied (callee params body range) :
    (applied callee params body range).relocate move =
      applied (callee.relocate move) params (body.map (Kotlin.Node.relocate move))
        (move range) := by
  simp [applied]

theorem relocate_bindingShape (hnone : move none = none) (style) (name : String)
    (value thenBranch elseBranch bindingRange range) :
    (bindingShape style name value thenBranch elseBranch bindingRange range).relocate move =
      bindingShape style name (value.relocate move) (thenBranch.map (Kotlin.Node.relocate move))
        (elseBranch.map (List.map (Kotlin.Node.relocate move))) (move bindingRange)
        (move range) := by
  cases style with
  | smartCast => simp [bindingShape, relocate_isNotNull move hnone]
  | safeLet => simp [bindingShape]
  | scopedVal =>
    cases elseBranch <;>
      simp [bindingShape, Kotlin.WhenBranch.map, Kotlin.WhenCondition.map]

@[simp] theorem withoutLastBreak_relocate (body) :
    withoutLastBreak (body.map (Node.relocate move)) =
      (withoutLastBreak body).map (Node.relocate move) := by
  have hlast :
      (body.map (Node.relocate move)).getLast?.any isBreak = body.getLast?.any isBreak := by
    rw [List.getLast?_map]
    cases body.getLast? <;> simp
  unfold withoutLastBreak
  rw [hlast, apply_ite (List.map _), List.map_dropLast]

end Trees

variable (range : Option SourceRange)

theorem parallel_boundType {blocks : Nat} (value : Node) :
    Parallel c blocks id (boundType value) (boundType (c.node value)) :=
  (parallel_typeOf value).bind fun _ => .pure rfl

theorem parallel_breakStmt {blocks : Nat} :
    ParallelNode c blocks (breakStmt range) (breakStmt (c.move range)) :=
  parallel_surroundings.bind fun _ => .ite (parallel_refuse _ _) (.pure (by simp))

include below

/-! ## Blocks, conditions and bindings -/

theorem parallel_block (items) :
    ParallelNode c 0 (block descent items range)
      (block descent' (items.map c.node) (c.move range)) :=
  (parallel_statements below items).bind fun _ => .pure (by simp)

theorem parallel_returnStmt (value) :
    ParallelNode c 0 (returnStmt descent value range)
      (returnStmt descent' (value.map c.node) (c.move range)) := by
  refine parallel_surroundings.bind fun _ => .ite (parallel_refuse _ _) ?_
  cases value with
  | none => exact .pure (by simp)
  | some value => exact (parallel_kept below value).bind fun _ => .pure (by simp)

theorem parallel_elseBranch (branch : Node) :
    ParallelNodes c 1 (elseBranch descent branch) (elseBranch descent' (c.node branch)) := by
  have hstatement := below.statement branch
  unfold elseBranch
  rw [Node.construct_relocate]
  cases branch.construct with
  | block items => exact (parallel_statements below items).inside
  | _ => exact hstatement

theorem parallel_optionalElse (otherwise) :
    Parallel c 1 (Option.map (List.map c.made))
      (optionalElse descent otherwise)
      (optionalElse descent' (otherwise.map c.node)) := by
  cases otherwise with
  | none => exact .pure rfl
  | some branch => exact (parallel_elseBranch below branch).bind fun _ => .pure rfl

theorem parallel_ifLet (name : String) (value : Node) (bindingRange thenBranch otherwise) :
    ParallelNode c 1 (ifLet descent name value bindingRange thenBranch otherwise range)
      (ifLet descent' name (c.node value) (c.move bindingRange)
        (thenBranch.map c.node) (otherwise.map c.node)
        (c.move range)) := by
  unfold ifLet
  simp only [bindingStyle_relocate, Option.isSome_map]
  refine (parallel_boundType value).bind fun type => (below.value value).inside.bind fun _ => ?_
  have hbranch := (parallel_statements below thenBranch).inside
  refine Parallel.bind (Parallel.inBlock (.ite ((parallel_narrow name type).bind fun _ => hbranch)
    ((parallel_declare name type).bind fun _ => hbranch))).inside fun _ => ?_
  exact (parallel_optionalElse below otherwise).bind fun _ =>
    .pure (relocate_bindingShape c.move c.move_none _ _ _ _ _ _ _).symm

theorem parallel_ifStmt (condition thenBranch otherwise) :
    ParallelNode c 1 (ifStmt descent condition thenBranch otherwise range)
      (ifStmt descent' ((condition.map c.node).relocate c.move)
        (thenBranch.map c.node) (otherwise.map c.node)
        (c.move range)) := by
  cases condition with
  | expr test =>
    exact (below.value test).inside.bind fun _ =>
      (parallel_statements below thenBranch).inside.bind fun _ =>
        (parallel_optionalElse below otherwise).bind fun _ => .pure (by simp)
  | binding name value bindingRange => exact parallel_ifLet below _ _ _ _ _ _

theorem parallel_guardLet (name : String) (value : Node) (bindingRange otherwise) :
    ParallelNodes c 1 (guardLet descent name value bindingRange otherwise range)
      (guardLet descent' name (c.node value) (c.move bindingRange)
        (otherwise.map c.node) (c.move range)) := by
  refine (parallel_boundType value).bind fun type => (below.value value).inside.bind fun _ =>
    (parallel_statements below otherwise).inside.bind fun _ => ?_
  rw [rebinds_relocate]
  refine .ite ((parallel_narrow name type).bind fun _ => .pure ?_)
    ((parallel_declareFresh name type).bind fun _ => .pure ?_)
  · simp [relocate_isNull c.move c.move_none]
  · simp [relocate_isNull c.move c.move_none]

theorem parallel_guardStmt (condition otherwise) :
    ParallelNodes c 1 (guardStmt descent condition otherwise range)
      (guardStmt descent' ((condition.map c.node).relocate c.move)
        (otherwise.map c.node) (c.move range)) := by
  cases condition with
  | expr test =>
    exact (below.value test).inside.bind fun _ =>
      (parallel_statements below otherwise).inside.bind fun _ => .pure (by simp)
  | binding name value bindingRange => exact parallel_guardLet below _ _ _ _ _

/-! ## Loops -/

theorem parallel_loopBody (body) :
    ParallelNodes c 0 (loopBody descent body) (loopBody descent' (body.map c.node)) :=
  (parallel_statements below body).surrounded _

theorem parallel_whileStmt (test : Node) (body) :
    ParallelNode c 0 (whileStmt descent test body range)
      (whileStmt descent' (c.node test) (body.map c.node) (c.move range)) :=
  (below.value test).bind fun _ => (parallel_loopBody below body).bind fun _ => .pure (by simp)

theorem parallel_repeatWhile (body) (test : Node) :
    ParallelNode c 0 (repeatWhile descent body test range)
      (repeatWhile descent' (body.map c.node) (c.node test) (c.move range)) :=
  (parallel_loopBody below body).bind fun _ => (below.value test).bind fun _ => .pure (by simp)

theorem parallel_forEach (binder : String) (sequence : Node) (body) :
    ParallelNode c 0 (forEach descent binder sequence body range)
      (forEach descent' binder (c.node sequence) (body.map c.node) (c.move range)) := by
  refine (parallel_typeOf sequence).bind fun _ => (below.value sequence).bind fun _ => ?_
  have hbody := (parallel_loopBody below body).inside
  refine Parallel.bind (Parallel.inBlock (.ite ((parallel_declare _ _).bind fun _ => hbody) hbody))
    fun _ => .pure ?_
  simp

/-! ## Switches -/

theorem parallel_whenCondition (pattern : Node) :
    Parallel c 0 (Kotlin.WhenCondition.map c.made)
      (whenCondition descent pattern) (whenCondition descent' (c.node pattern)) := by
  have hvalue : Parallel c 0 (Kotlin.WhenCondition.map c.made)
      (do return .value (← descent.value pattern))
      (do return .value (← descent'.value (c.node pattern))) :=
    (below.value pattern).bind fun _ => .pure rfl
  have hcase (enum case : String) :
      Parallel c 0 (Kotlin.WhenCondition.map c.made)
        (do
          if ((← types).case? enum case).any (!·.params.isEmpty) then
            return .is (.named s!"{identifier enum}.{← caseName enum case}" [])
          else return .value (← descent.value pattern))
        (do
          if ((← types).case? enum case).any (!·.params.isEmpty) then
            return .is (.named s!"{identifier enum}.{← caseName enum case}" [])
          else return .value (← descent'.value (c.node pattern))) := by
    refine parallel_types.bind fun types => ?_
    have hparams : ((types.relocate c.move).case? enum case).any (!·.params.isEmpty) =
        (types.case? enum case).any (!·.params.isEmpty) := by
      rw [DeclaredTypes.case?_relocate]
      cases types.case? enum case <;> simp [Swift.EnumCaseDecl.map]
    rw [hparams]
    exact .ite ((parallel_caseName enum case).bind fun _ => .pure rfl) hvalue
  have hfound {found found' : Option (String × String) → Lower (Kotlin.WhenCondition Kotlin.Node)}
      (hnone : Parallel c 0 (Kotlin.WhenCondition.map c.made)
        (found none) (found' none))
      (hsome : ∀ enum case, Parallel c 0 (Kotlin.WhenCondition.map c.made)
        (found (some (enum, case))) (found' (some (enum, case)))) :
      Parallel c 0 (Kotlin.WhenCondition.map c.made)
        (casePattern pattern >>= found) (casePattern (c.node pattern) >>= found') := by
    refine (parallel_casePattern pattern).bind fun case => ?_
    rcases case with _ | ⟨enum, case⟩
    · exact hnone
    · exact hsome enum case
  unfold whenCondition
  rw [Node.construct_relocate, Node.range_relocate]
  cases pattern.construct with
  | cast kind value ty =>
    cases kind with
    | check => exact (parallel_lowerTy ty _).bind fun _ => .pure rfl
    | _ => exact hfound hvalue hcase
  | _ => exact hfound hvalue hcase

theorem parallel_whenBranch (case) :
    Parallel c 0 (Kotlin.WhenBranch.map c.made) (whenBranch descent case)
      (whenBranch descent' ((case.map c.node).relocate c.move)) := by
  refine (Parallel.mapM case.patterns (parallel_whenCondition below)).bind fun _ => ?_
  change Parallel _ _ _ _
    (withinCase true (descent'.statements (withoutLastBreak (case.body.map _))) >>= _)
  rw [withoutLastBreak_relocate]
  exact ((parallel_statements below _).surrounded _).bind fun _ => .pure rfl

theorem parallel_switchStmt (subject : Node) (cases) :
    ParallelNode c 0 (switchStmt descent subject cases range)
      (switchStmt descent' (c.node subject)
        (cases.map fun case => (case.map c.node).relocate c.move)
        (c.move range)) :=
  (parallel_enumOf subject).bind fun _ => (below.value subject).bind fun _ =>
    ((Parallel.mapM cases (parallel_whenBranch below)).surrounded _).bind fun _ => .pure (by simp)

/-! ## Errors -/

theorem parallel_catchBlock (clause) :
    Parallel c 0 (Kotlin.CatchBlock.map c.made) (catchBlock descent clause)
      (catchBlock descent' ((clause.map c.node).relocate c.move)) := by
  obtain ⟨name, ty, body, range⟩ := clause
  have hbody (name : String) (ty : Option Ty) : ParallelNodes c 0
      (inBlock do
        declare name ty
        descent.statements body)
      (inBlock do
        declare name ty
        descent'.statements (body.map c.node)) :=
    ((parallel_declare name ty).bind fun _ => (parallel_statements below body).inside).inBlock
  dsimp only [Swift.CatchClause.map, Swift.CatchClause.relocate]
  cases ty with
  | none =>
    refine Parallel.bind (f := id) (.pure rfl) fun _ => ?_
    exact (hbody _ none).bind fun _ => .pure (by simp [Kotlin.CatchBlock.map])
  | some ty =>
    refine (parallel_lowerTy ty range).bind fun _ => ?_
    exact (hbody _ (some ty)).bind fun _ => .pure (by simp [Kotlin.CatchBlock.map])

theorem parallel_doCatch (body catches) :
    ParallelNode c 0 (doCatch descent body catches range)
      (doCatch descent' (body.map c.node)
        (catches.map fun clause => (clause.map c.node).relocate c.move)
        (c.move range)) :=
  (parallel_statements below body).bind fun _ =>
    (Parallel.mapM catches (parallel_catchBlock below)).bind fun _ => .pure (by simp)

/-! ## Assignments -/

theorem parallel_assign (target value : Node) :
    ParallelNode c 0 (assign descent target value range)
      (assign descent' (c.node target) (c.node value) (c.move range)) := by
  unfold assign
  rw [isDiscard_relocate]
  refine .ite (below.value value) ?_
  exact (parallel_enumOf target).bind fun _ => parallel_surroundings.bind fun _ =>
    ((parallel_kept below value).surrounded _).bind fun _ => (below.value target).bind fun _ =>
      .pure (by simp)

theorem parallel_compoundAssign (operator : String) (target value : Node) :
    ParallelNode c 0 (compoundAssign descent operator target value range)
      (compoundAssign descent' operator (c.node target) (c.node value) (c.move range)) := by
  refine (below.value target).bind fun _ => (below.value value).bind fun _ => ?_
  split
  · exact .pure (by simp)
  · exact .pure (by simp)
  · exact parallel_refuse _ _

end Statement

end SwiftToKotlin.Lowering
