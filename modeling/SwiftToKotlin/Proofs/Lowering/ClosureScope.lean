import SwiftToKotlin.Conversion
import SwiftToKotlin.Proofs.Lowering.Invariant
import SwiftToKotlin.Proofs.Lowering.StackDiscipline

/-!
# The last statement of a closure

The statements of a closure before the last one are lowered in a block of their own, which is closed
when the last one is lowered. So the body of the lambda is not what the statements become as one
block: the last statement does not see the locals of the others. The difference lies in that block
alone, and it is none if the block has no locals, unless the last statement itself declares some
next to parameters.
-/

namespace SwiftToKotlin

namespace Lowering

open Swift (Node Ty)

/-! ## A block without locals -/

namespace Locals

theorem typeOf?_append_empty (inner outer : Locals) (name : String) :
    typeOf? (inner ++ .empty :: outer) name = typeOf? (inner ++ outer) name := by
  have hempty : (Block.empty :: outer).findSome? (fun block => block.types.lookup name) =
      outer.findSome? (fun block => block.types.lookup name) :=
    rfl
  rw [typeOf?, typeOf?, List.findSome?_append, List.findSome?_append, hempty]

theorem renameOf?_append_empty (inner outer : Locals) (name : String) :
    renameOf? name (inner ++ .empty :: outer) = renameOf? name (inner ++ outer) := by
  induction inner with
  | nil => simp [renameOf?, Block.empty, Block.declares]
  | cons block inner ih => rw [List.cons_append, List.cons_append, renameOf?, renameOf?, ih]

theorem fresh_append_empty (inner outer : Locals) (name : String) :
    fresh (inner ++ .empty :: outer) name = fresh (inner ++ outer) name := by
  simp [fresh, Block.empty, Block.taken]

end Locals

/-- The correspondence of runs of which the second has a block without locals around its own
blocks. -/
def Correspondence.padding (context : Context) (outer : Locals) : Correspondence where
  context := context
  move := id
  move_none := Relocation.id_none
  locals := fun depth l l' => ∃ inner : Locals, inner.length = depth ∧ l = inner ++ outer ∧
    l' = inner ++ .empty :: outer
  typeOf? := by
    rintro _ _ _ ⟨inner, rfl, rfl, rfl⟩ name
    exact Locals.typeOf?_append_empty inner outer name
  written := by
    rintro _ _ _ ⟨inner, rfl, rfl, rfl⟩ name
    exact congrArg (Option.getD · name) (Locals.renameOf?_append_empty inner outer name)
  declare := by
    rintro _ _ _ ⟨_ | ⟨block, inner⟩, hlength, rfl, rfl⟩ name ty
    · cases hlength
    · exact ⟨block.declare name ty :: inner, hlength, rfl, rfl⟩
  narrow := by
    rintro _ _ _ ⟨_ | ⟨block, inner⟩, hlength, rfl, rfl⟩ name ty
    · cases hlength
    · have hrename := Locals.renameOf?_append_empty (block :: inner) outer name
      rw [List.cons_append, List.cons_append] at hrename ⊢
      unfold Locals.narrow
      rw [hrename]
      cases Locals.renameOf? name (block :: (inner ++ outer)) with
      | none => exact ⟨block.declare name ty :: inner, hlength, rfl, rfl⟩
      | some renamed => exact ⟨block.declareAs name renamed ty :: inner, hlength, rfl, rfl⟩
  declareFresh := by
    rintro _ _ _ ⟨_ | ⟨block, inner⟩, hlength, rfl, rfl⟩ name ty
    · cases hlength
    · have hfresh := Locals.fresh_append_empty (block :: inner) outer name
      rw [List.cons_append, List.cons_append] at hfresh ⊢
      unfold Locals.declareFresh
      dsimp only
      rw [hfresh]
      split
      · exact ⟨rfl, block.declareAs name _ ty :: inner, hlength, rfl, rfl⟩
      · exact ⟨rfl, block.declare name ty :: inner, hlength, rfl, rfl⟩
  opened := by
    rintro _ _ _ ⟨inner, hlength, rfl, rfl⟩
    exact ⟨.empty :: inner, by rw [List.length_cons, hlength], rfl, rfl⟩
  closed := by
    rintro _ _ _ ⟨_ | ⟨block, inner⟩, hlength, rfl, rfl⟩
    · cases hlength
    · exact ⟨inner, Nat.succ_inj.1 hlength, rfl, rfl⟩

/-- A statement whose runs stay side by side becomes the same with the block around it. -/
theorem made_eq_of_padding (inner outer : Locals) (hlocals : state.locals = inner ++ outer)
    (h : ParallelNodes (.padding context outer) blocks ((descend height).statement node)
      ((descend height).statement (node.relocate (Correspondence.padding context outer).move)))
    (hblocks : blocks ≤ inner.length) :
    ((((descend height).statement node).run context).run
        { state with locals := inner ++ .empty :: outer }).1 =
      ((((descend height).statement node).run context).run state).1 := by
  have hrelates : (Correspondence.padding context outer).Relates inner.length state
      { state with locals := inner ++ .empty :: outer } :=
    ⟨rfl, ⟨inner, rfl, hlocals, rfl⟩, rfl, rfl, by
      simp [Correspondence.padding, funext Diagnostic.relocate_id]⟩
  have hcontext : (Correspondence.padding context outer).context' = context :=
    Context.relocate_id context
  have hnode : node.relocate (Correspondence.padding context outer).move = node :=
    Node.relocate_id node
  have hmade := (h _ _ _ hblocks hrelates).1
  rw [hcontext, hnode] at hmade
  refine hmade.trans ?_
  change List.map (Kotlin.Node.relocate id) _ = _
  rw [funext Kotlin.Node.relocate_id]
  exact List.map_id _

/-- An expression in the place of a statement declares nothing. -/
theorem parallel_statement_of_isExpression (c) (height : Nat)
    (h : node.construct.tag.isExpression = true) :
    ParallelNodes c 0 ((descend height).statement node)
      ((descend height).statement (node.relocate c.move)) := by
  cases height with
  | zero => exact .pure rfl
  | succ height =>
    have below := descend_parallel c height
    have one {first second : Lower Kotlin.Node} (h : ParallelNode c 0 first second) :
        ParallelNodes c 0 (do return [← first]) (do return [← second]) :=
      h.bind fun _ => .pure rfl
    obtain ⟨construct, range⟩ := node
    have hvalue := one (Expression.parallel_lower below ⟨construct, range⟩)
    cases construct with
    | binary operator lhs rhs =>
      exact .ite (one (Statement.parallel_compoundAssign below _ _ _ _)) hvalue
    | assign target value => exact one (Statement.parallel_assign below _ _ _)
    | _ => first | exact hvalue | cases h

/-! ## The body of a lambda -/

/-- The state in which the body of a closure begins. -/
def State.enterClosure (params : List String) (state : State) : State :=
  { state with
    surroundings :=
      { state.surroundings with
        closureDepth := state.surroundings.closureDepth + 1, inCase := false }
    locals := params.foldl (fun locals param => locals.declare param none) (.empty :: state.locals)
    anonymousMax := none }

namespace Expression

variable {context : Context}

theorem run_declareAll (params : List String) (context state) :
    (((params.forM (declare · none) : Lower PUnit).run context).run state) =
      ((), { state with
        locals := params.foldl (fun locals param => locals.declare param none) state.locals }) := by
  induction params generalizing state with
  | nil => rfl
  | cons param rest ih => exact ih { state with locals := state.locals.declare param none }

theorem exists_closure_run (descent context params body range state) :
    ∃ names, (((closure descent params body range).run context).run state).1 =
      ⟨.lambda names (((closureBody descent body).run context).run
        (state.enterClosure params)).1, range⟩ := by
  have hdeclared := run_declareAll params context
    { state.enterClosure [] with locals := .empty :: state.locals }
  have hentered : (((params.forM (declare · none) : Lower PUnit).run context).run
      { state.enterClosure [] with locals := .empty :: state.locals }).2 =
        state.enterClosure params := by
    rw [hdeclared]
    rfl
  rw [← hentered]
  exact ⟨_, rfl⟩

theorem run_closureBody (first) (last : Node) (state) :
    (((closureBody descent (first ++ [last])).run context).run state).1 =
      (((descent.statements first).run context).run state).1 ++
        (((lastStatement descent last).run context).run
          (((descent.statements first).run context).run state).2).1 := by
  unfold closureBody
  rw [List.getLast?_concat, List.dropLast_concat]
  rfl

theorem lastStatement_of_not_return (h : ∀ value, last.construct ≠ .returnStmt value) :
    lastStatement descent last = descent.statement last := by
  unfold lastStatement
  split
  · next value hlast => exact absurd hlast (h (some value))
  · next hlast => exact absurd hlast (h none)
  · rfl

end Expression

theorem run_sequence_concat (descent : Descent) (context first) (last : Node) (state) :
    (((descent.sequence (first ++ [last])).run context).run state).1 =
      (((descent.sequence first).run context).run state).1 ++
        (((descent.statement last).run context).run
          (((descent.sequence first).run context).run state).2).1 := by
  unfold Descent.sequence
  rw [List.mapM_append, List.mapM_cons, List.mapM_nil]
  change List.flatten (_ ++ [_]) = _
  rw [List.flatten_append]
  simp only [List.flatten_cons, List.flatten_nil, List.append_nil]
  rfl

/-- A block of its own is opened before the statements and closed after them. -/
theorem exists_run_statements (height : Nat) (context nodes state) :
    ∃ made after block,
      (((descend height).sequence nodes).run context).run
          { state with locals := .empty :: state.locals } =
        (made, { after with locals := block :: state.locals }) ∧
      (((descend height).statements nodes).run context).run state = (made, after) ∧
      after.locals = state.locals ∧ after.surroundings = state.surroundings := by
  let final := (((descend height).sequence nodes).run context).run
    { state with locals := .empty :: state.locals }
  have hframed : Framed List.tail { state with locals := .empty :: state.locals } final.2 :=
    keeps_sequence (descend_follows stackDiscipline height) nodes context _
  have hcons : ∃ block, final.2.locals = block :: state.locals := by
    have hdepth := hframed.depth
    have htail := hframed.locals
    cases hlocals : final.2.locals with
    | nil =>
      rw [hlocals] at hdepth
      cases hdepth
    | cons block outer =>
      rw [hlocals] at htail
      exact ⟨block, congrArg (block :: ·) htail⟩
  obtain ⟨block, hblock⟩ := hcons
  refine ⟨final.1, { final.2 with locals := state.locals }, block, ?_, ?_, rfl,
    hframed.surroundings⟩
  · change final = (final.1, { final.2 with locals := block :: state.locals })
    rw [← hblock]
    rfl
  · have htail : final.2.locals.tail = state.locals := by rw [hblock, List.tail_cons]
    rw [← htail]
    rfl

/-- The statements of a closure before the last one leave a block of locals. The last one is lowered
without it; as the last of all statements in one block it would be lowered within it. There is no
difference if the block is empty, and the closure has no parameters or ends with an expression. -/
theorem closure_lowers_last_outside_block (height : Nat) (params : List String)
    (first : List Node) (last : Node) (range : Option SourceRange) (context : Context)
    (state : State) :
    let below := descend height
    let opened := state.enterClosure params
    ∃ names earlier middle block,
      ((below.sequence first).run context).run { opened with locals := .empty :: opened.locals } =
        (earlier, { middle with locals := block :: opened.locals }) ∧
      middle.locals = opened.locals ∧ middle.surroundings = opened.surroundings ∧
      (((Expression.closure below params (first ++ [last]) range).run context).run state).1 =
        ⟨.lambda names (earlier ++
          (((Expression.lastStatement below last).run context).run middle).1), range⟩ ∧
      ((∀ value, last.construct ≠ .returnStmt value) →
        Expression.lastStatement below last = below.statement last ∧
        (((below.statements (first ++ [last])).run context).run opened).1 =
          earlier ++ (((below.statement last).run context).run
            { middle with locals := block :: opened.locals }).1 ∧
        (block = .empty → params = [] ∨ last.construct.tag.isExpression = true →
          (((below.statement last).run context).run
              { middle with locals := block :: opened.locals }).1 =
            (((below.statement last).run context).run middle).1)) := by
  intro below opened
  obtain ⟨earlier, middle, block, hsequence, hstatements, hlocals, hsurroundings⟩ :=
    exists_run_statements height context first opened
  obtain ⟨names, hlambda⟩ :=
    Expression.exists_closure_run below context params (first ++ [last]) range state
  refine ⟨names, earlier, middle, block, hsequence, hlocals, hsurroundings, ?_, fun hlast =>
    ⟨Expression.lastStatement_of_not_return hlast, ?_, ?_⟩⟩
  · rw [hlambda, Expression.run_closureBody, hstatements]
  · have hall := run_sequence_concat below context first last
      { opened with locals := .empty :: opened.locals }
    rw [hsequence] at hall
    exact hall
  · rintro rfl (rfl | hexpression)
    · -- in both runs the block of the closure itself takes what the statement declares
      exact made_eq_of_padding [.empty] state.locals hlocals
        ((descend_parallel _ height).statement last) (Nat.le_refl 1)
    · exact made_eq_of_padding [] opened.locals hlocals
        (parallel_statement_of_isExpression _ height hexpression) (Nat.le_refl 0)

end Lowering

namespace Conversion

/-- A closure that binds `x` a second time with a guard and uses it in its last statement. -/
def guardedClosure : Dump.Node :=
  let reference (name : String) : Dump.Node := ⟨"declref_expr", [("name", name)], [], none⟩
  ⟨"source_file", [], [⟨"closure_expr", [], [⟨"brace_stmt", [],
    [⟨"var_decl", [("name", "x"), ("let", "")],
        [⟨"integer_literal_expr", [("value", "1")], [], none⟩], none⟩,
      ⟨"guard_stmt", [], [⟨"optional_binding", [("name", "x")],
        [⟨"call_expr", [], [reference "maybe"], none⟩], none⟩,
        ⟨"brace_stmt", [], [], none⟩], none⟩,
      ⟨"call_expr", [], [reference "use", reference "x"], none⟩], none⟩], none⟩], none⟩

/-- The guard binding is called `x2`, but the last statement refers to the first `x`. -/
theorem guarded_closure_forgets_new_name :
    (ofDump {} guardedClosure).kotlin =
      ⟨.file [⟨.lambda []
        [⟨.property
            { name := "x", binding := .val, init := some (.literal (.int "1") none) }, none⟩,
          ⟨.property
            { name := "x2", binding := .val
              init := some (.call (.reference "maybe" none) [] none) }, none⟩,
          ⟨.ifStmt (.binary .eq (.reference "x2" none) (.literal .null none) none) [] none, none⟩,
          .call (.reference "use" none) [.reference "x" none] none], none⟩], none⟩ := by
  with_unfolding_all rfl

end Conversion

end SwiftToKotlin
