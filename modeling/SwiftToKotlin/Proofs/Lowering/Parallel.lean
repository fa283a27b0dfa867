import SwiftToKotlin.Proofs.Lowering.Actions
import SwiftToKotlin.Proofs.Lowering.Relocation

/-!
# Lowering twice

Two runs of lowering side by side: the second one has a tree with other ranges before it, and locals
that are not the same but answer alike. A correspondence says which locals do, and that the steps of
lowering keep it so. The lowering of every construct is made of these steps and of the lowering of
its parts, so the runs stay side by side on trees of any height: they differ in ranges only.
-/

namespace SwiftToKotlin.Lowering

open Swift (Node Argument Ty)

/-- What a tree with other ranges is lowered with. -/
def Context.relocate (move : Relocation) (context : Context) : Context :=
  { context with types := context.types.relocate move }

/-- Ranges that stay where they are do not appear either. -/
theorem Relocation.id_none : (id : Relocation) none = none :=
  rfl

/-- Locals of two runs that answer alike, with the number of blocks that both have opened since the
correspondence was set up. Only in such a block is anything declared. -/
structure Correspondence where
  /-- What the first run is made with. -/
  context : Context
  /-- The ranges of the second run, from those of the first. -/
  move : Relocation
  move_none : move none = none
  locals : Nat → Locals → Locals → Prop
  typeOf? : ∀ {depth : Nat} {l l' : Locals}, locals depth l l' →
    ∀ name, l'.typeOf? name = l.typeOf? name
  written : ∀ {depth : Nat} {l l' : Locals}, locals depth l l' →
    ∀ name, l'.written name = l.written name
  declare : ∀ {depth : Nat} {l l' : Locals}, locals (depth + 1) l l' →
    ∀ name ty, locals (depth + 1) (l.declare name ty) (l'.declare name ty)
  narrow : ∀ {depth : Nat} {l l' : Locals}, locals (depth + 1) l l' →
    ∀ name ty, locals (depth + 1) (l.narrow name ty) (l'.narrow name ty)
  declareFresh : ∀ {depth : Nat} {l l' : Locals}, locals (depth + 1) l l' →
    ∀ name ty, (l'.declareFresh name ty).2 = (l.declareFresh name ty).2 ∧
      locals (depth + 1) (l.declareFresh name ty).1 (l'.declareFresh name ty).1
  opened : ∀ {depth : Nat} {l l' : Locals}, locals depth l l' →
    locals (depth + 1) (.empty :: l) (.empty :: l')
  closed : ∀ {depth : Nat} {l l' : Locals}, locals (depth + 1) l l' → locals depth l.tail l'.tail

/-- The states of the two runs. -/
structure Correspondence.Relates (c : Correspondence) (depth : Nat) (s t : State) : Prop where
  surroundings : t.surroundings = s.surroundings
  locals : c.locals depth s.locals t.locals
  anonymousMax : t.anonymousMax = s.anonymousMax
  cases : t.cases = s.cases
  diagnostics : t.diagnostics = s.diagnostics.map (Diagnostic.relocate c.move)

/-- What the second run is made with. -/
def Correspondence.context' (c : Correspondence) : Context :=
  c.context.relocate c.move

/-- A node that the first run lowers, with the ranges of the second. -/
abbrev Correspondence.node (c : Correspondence) : Node → Node :=
  Node.relocate c.move

abbrev Correspondence.arguments (c : Correspondence) :
    List (Swift.Argument Node) → List (Swift.Argument Node) :=
  List.map (Swift.Argument.map c.node)

/-- A node that the first run makes, with the ranges of the second. -/
abbrev Correspondence.made (c : Correspondence) : Kotlin.Node → Kotlin.Node :=
  Kotlin.Node.relocate c.move

variable {α β γ δ : Type}

/-- From related states both actions end in related states, and the result of the second is that of
the first carried over. The actions may be run once so many blocks are open. -/
def Parallel (c : Correspondence) (blocks : Nat) (f : α → β) (first : Lower α) (second : Lower β) :
    Prop :=
  ∀ depth s t, blocks ≤ depth → c.Relates depth s t →
    ((second.run c.context').run t).1 = f ((first.run c.context).run s).1 ∧
      c.Relates depth ((first.run c.context).run s).2 ((second.run c.context').run t).2

/-- The second action makes the node that the first one makes, with other ranges. -/
abbrev ParallelNode (c : Correspondence) (blocks : Nat) (first second : Lower Kotlin.Node) : Prop :=
  Parallel c blocks (Kotlin.Node.relocate c.move) first second

abbrev ParallelNodes (c : Correspondence) (blocks : Nat) (first second : Lower (List Kotlin.Node)) :
    Prop :=
  Parallel c blocks (List.map (Kotlin.Node.relocate c.move)) first second

namespace Parallel

variable {f : α → β}

/-- What needs no open block may be run in one. -/
theorem inside (h : Parallel c 0 f first second) : Parallel c 1 f first second :=
  fun depth s t _ => h depth s t (Nat.zero_le depth)

/-- Actions that only look. -/
theorem of_looking (hfirst : ∀ context s, ((first.run context).run s).2 = s)
    (hsecond : ∀ context s, ((second.run context).run s).2 = s)
    (h : ∀ depth s t, c.Relates depth s t →
      ((second.run c.context').run t).1 = f ((first.run c.context).run s).1) :
    Parallel c blocks f first second := by
  intro depth s t _ hrelates
  rw [hfirst, hsecond]
  exact ⟨h depth s t hrelates, hrelates⟩

/-- Actions that only change the state. -/
theorem of_modify
    (h : ∀ depth s t, blocks ≤ depth → c.Relates depth s t →
      c.Relates depth (change s) (change' t)) :
    Parallel c blocks id (modify change : Lower Unit) (modify change' : Lower Unit) :=
  fun depth s t hdepth hrelates => ⟨rfl, h depth s t hdepth hrelates⟩

theorem pure (h : b = f a) : Parallel c blocks f (Pure.pure a) (Pure.pure b) :=
  of_looking (fun _ _ => rfl) (fun _ _ => rfl) fun _ _ _ _ => h

theorem bind (h : Parallel c blocks f first second)
    (hnext : ∀ a, Parallel c blocks g (next a) (next' (f a))) :
    Parallel c blocks g (first >>= next) (second >>= next') := by
  intro depth s t hdepth hrelates
  obtain ⟨hresult, hstate⟩ := h depth s t hdepth hrelates
  have hrest := hnext ((first.run c.context).run s).1 depth _ _ hdepth hstate
  rw [← hresult] at hrest
  exact hrest

theorem map (h : Parallel c blocks f first second) (hk : ∀ a, k' (f a) = g (k a)) :
    Parallel c blocks g (k <$> first) (k' <$> second) := by
  intro depth s t hdepth hrelates
  obtain ⟨hresult, hstate⟩ := h depth s t hdepth hrelates
  exact ⟨(congrArg k' hresult).trans (hk _), hstate⟩

theorem ite [Decidable p]
    (h : Parallel c blocks f first second) (h' : Parallel c blocks f first' second') :
    Parallel c blocks f (if p then first else first') (if p then second else second') := by
  split
  · exact h
  · exact h'

theorem mapM {h : γ → δ} {read : γ → Lower α} (items : List γ)
    (hread : ∀ item, Parallel c blocks f (read item) (read' (h item))) :
    Parallel c blocks (List.map f) (items.mapM read) ((items.map h).mapM read') := by
  induction items with
  | nil => exact pure rfl
  | cons item rest ih =>
    rw [List.map_cons, List.mapM_cons, List.mapM_cons]
    exact (hread item).bind fun _ => ih.bind fun _ => pure rfl

theorem forM (items : List γ) (hact : ∀ item, Parallel c blocks id (act item) (act' (h item))) :
    Parallel c blocks id (items.forM act) ((items.map h).forM act') := by
  induction items with
  | nil => exact pure rfl
  | cons item rest ih => exact (hact item).bind fun _ => ih

theorem optionM {h : γ → δ} {read : γ → Lower α} (item : Option γ)
    (hread : ∀ item, Parallel c blocks f (read item) (read' (h item))) :
    Parallel c blocks (Option.map f) (Swift.optionM read item)
      (Swift.optionM read' (item.map h)) := by
  cases item with
  | none => exact pure rfl
  | some a => exact (hread a).bind fun _ => pure rfl

/-! ## Surroundings and blocks -/

theorem surrounded (change) (h : Parallel c blocks f first second) :
    Parallel c blocks f (surrounded change first) (surrounded change second) := by
  intro depth s t hdepth hrelates
  have hentered : c.Relates depth (s.amid change) (t.amid change) :=
    { hrelates with surroundings := congrArg change hrelates.surroundings }
  obtain ⟨hresult, hstate⟩ := h depth _ _ hdepth hentered
  exact ⟨hresult, { hstate with surroundings := hrelates.surroundings }⟩

/-- A block of its own may be opened anywhere. -/
theorem inBlock (h : Parallel c 1 f first second) :
    Parallel c 0 f (inBlock first) (inBlock second) := by
  intro depth s t _ hrelates
  have hopened : c.Relates (depth + 1) s.opened t.opened :=
    { hrelates with locals := c.opened hrelates.locals }
  obtain ⟨hresult, hstate⟩ := h (depth + 1) _ _ (Nat.le_add_left 1 depth) hopened
  exact ⟨hresult, { hstate with locals := c.closed hstate.locals }⟩

theorem inClosure (h : Parallel c 1 f first second) :
    Parallel c 0 (Prod.map f id) (inClosure first) (inClosure second) := by
  intro depth s t hdepth hrelates
  have hentered : c.Relates depth { s with anonymousMax := none } { t with anonymousMax := none } :=
    { hrelates with anonymousMax := rfl }
  obtain ⟨hresult, hstate⟩ := h.inBlock.surrounded
    (fun outer => { outer with closureDepth := outer.closureDepth + 1, inCase := false })
    depth _ _ hdepth hentered
  exact ⟨Prod.ext hresult hstate.anonymousMax,
    { hstate with anonymousMax := hrelates.anonymousMax }⟩

end Parallel

/-! ## Single steps -/

section Steps

theorem parallel_types : Parallel c blocks (DeclaredTypes.relocate c.move) types types :=
  .of_looking (fun _ _ => rfl) (fun _ _ => rfl) fun _ _ _ _ => rfl

theorem parallel_read : Parallel c blocks (Context.relocate c.move) (read : Lower Context) read :=
  .of_looking (fun _ _ => rfl) (fun _ _ => rfl) fun _ _ _ _ => rfl

theorem parallel_surroundings : Parallel c blocks id surroundings surroundings :=
  .of_looking (fun _ _ => rfl) (fun _ _ => rfl) fun _ _ _ h => h.surroundings

theorem parallel_typeOf (node : Node) : Parallel c blocks id (typeOf node) (typeOf (c.node node)) :=
  .of_looking (fun _ _ => rfl) (fun _ _ => rfl) fun _ _ _ h =>
    typeIn_relocate c.move c.context.types node (c.typeOf? h.locals)

theorem parallel_enumOf (node : Node) :
    Parallel c blocks id (enumOf node) (enumOf (c.node node)) := by
  refine (parallel_typeOf node).bind fun ty => parallel_types.bind fun types => .pure ?_
  rw [enumNamed?_relocate]
  rfl

theorem parallel_casePattern (node : Node) :
    Parallel c blocks id (casePattern node) (casePattern (c.node node)) := by
  refine parallel_types.bind fun types => parallel_surroundings.bind fun around => .pure ?_
  exact casePattern?_relocate c.move types node around

theorem parallel_placedStruct (node : Node) :
    Parallel c blocks id (Descent.placedStruct node) (Descent.placedStruct (c.node node)) := by
  unfold Descent.placedStruct
  rw [Descent.isPlace_relocate]
  refine .ite (.pure rfl) (parallel_types.bind fun types =>
    (parallel_typeOf node).bind fun ty => .pure ?_)
  simp [Function.comp_def]

theorem parallel_declare (name : String) (ty) :
    Parallel c 1 id (declare name ty) (declare name ty) :=
  .of_modify fun depth _ _ hdepth h => by
    obtain ⟨outer, rfl⟩ := Nat.exists_eq_add_of_le' hdepth
    exact { h with locals := c.declare h.locals name ty }

theorem parallel_narrow (name : String) (ty) : Parallel c 1 id (narrow name ty) (narrow name ty) :=
  .of_modify fun depth _ _ hdepth h => by
    obtain ⟨outer, rfl⟩ := Nat.exists_eq_add_of_le' hdepth
    exact { h with locals := c.narrow h.locals name ty }

theorem parallel_declareFresh (name : String) (ty) :
    Parallel c 1 id (declareFresh name ty) (declareFresh name ty) := by
  intro depth s t hdepth h
  obtain ⟨outer, rfl⟩ := Nat.exists_eq_add_of_le' hdepth
  obtain ⟨hname, hlocals⟩ := c.declareFresh h.locals name ty
  rw [run_declareFresh, run_declareFresh, hname]
  exact ⟨rfl, { h with locals := hlocals }⟩

theorem parallel_report (cause : Cause) (range) :
    Parallel c blocks id (report cause range) (report cause (c.move range)) :=
  .of_modify fun _ s t _ h => by
    refine { h with diagnostics := ?_ }
    rw [h.diagnostics, List.map_append]
    rfl

theorem parallel_refuse (obstacle : Obstacle) (range) :
    ParallelNode c blocks (refuse obstacle range) (refuse obstacle (c.move range)) :=
  (parallel_report _ range).bind fun _ => .pure (Kotlin.Node.relocate_comment _ _ _).symm

theorem parallel_lowerTy (ty : Ty) (range) :
    Parallel c blocks id (lowerTy ty range) (lowerTy ty (c.move range)) := by
  unfold lowerTy
  split
  · exact .pure rfl
  · exact (parallel_report _ range).bind fun _ => .pure rfl

theorem parallel_nameCase (enum case : String) (style) :
    Parallel c blocks id (nameCase enum case style) (nameCase enum case style) := by
  intro depth s t _ h
  have hname : (t.cases.name enum case style).1 = (s.cases.name enum case style).1 := by
    rw [h.cases]
  have hcases : (t.cases.name enum case style).2 = (s.cases.name enum case style).2 := by
    rw [h.cases]
  exact ⟨hname, { h with cases := hcases }⟩

theorem parallel_caseName (enum case : String) :
    Parallel c blocks id (caseName enum case) (caseName enum case) := by
  refine parallel_types.bind fun types => ?_
  rw [caseStyle_relocate]
  exact parallel_nameCase enum case _

theorem parallel_caseReference (enum case : String) (range) :
    ParallelNode c blocks (caseReference enum case range)
      (caseReference enum case (c.move range)) :=
  (parallel_caseName enum case).bind fun _ => .pure (by simp)

theorem Expression.parallel_reference (name : String) (range) :
    ParallelNode c blocks (reference name range) (reference name (c.move range)) := by
  have hwritten : ParallelNode c blocks
      (do return .reference (identifier ((← locals).written name)) range)
      (do return .reference (identifier ((← locals).written name)) (c.move range)) := by
    refine .of_looking (fun _ _ => rfl) (fun _ _ => rfl) fun _ s t h => ?_
    change Kotlin.Node.reference (identifier (t.locals.written name)) _ =
      Kotlin.Node.relocate _ (.reference (identifier (s.locals.written name)) _)
    rw [Kotlin.Node.relocate_reference, c.written h.locals]
  refine parallel_surroundings.bind fun around => ?_
  rw [id_eq]
  split
  · next index _ _ _ =>
    have huse : Parallel c blocks id (useAnonymous index) (useAnonymous index) :=
      .of_modify fun _ _ _ _ h => { h with anonymousMax := by rw [h.anonymousMax] }
    exact huse.bind fun _ => .pure (Kotlin.Node.relocate_reference _ _ _).symm
  · exact hwritten

end Steps

/-! ## Parts -/

/-- The lowering of the parts of the two trees runs side by side. -/
structure Correspondence.Below (c : Correspondence) (descent descent' : Descent) : Prop where
  statement : ∀ node, ParallelNodes c 1 (descent.statement node)
    (descent'.statement (node.relocate c.move))
  value : ∀ node, ParallelNode c 0 (descent.value node) (descent'.value (node.relocate c.move))

variable {c : Correspondence} (below : c.Below descent descent')

include below

theorem parallel_sequence (nodes) :
    ParallelNodes c 1 (descent.sequence nodes) (descent'.sequence (nodes.map c.node)) :=
  (Parallel.mapM nodes below.statement).bind fun _ => .pure List.map_flatten.symm

theorem parallel_statements (nodes) :
    ParallelNodes c 0 (descent.statements nodes) (descent'.statements (nodes.map c.node)) :=
  (parallel_sequence below nodes).inBlock

theorem parallel_kept (node : Node) :
    ParallelNode c 0 (descent.kept node) (descent'.kept (c.node node)) := by
  refine (below.value node).bind fun lowered => (parallel_placedStruct node).bind fun placed => ?_
  rw [Node.range_relocate]
  rcases placed with _ | ⟨name, _ | _⟩
  · exact .pure rfl
  · exact .pure (by simp)
  · exact (parallel_report _ _).bind fun _ => .pure rfl

end SwiftToKotlin.Lowering
