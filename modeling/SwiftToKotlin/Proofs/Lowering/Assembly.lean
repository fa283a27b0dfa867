import Mathlib.Data.List.Forall2
import SwiftToKotlin.Proofs.Lowering.StackDiscipline

/-!
# Actions assembled from visits

An action that lowers a construct is given the lowering of parts as a value, so it can do nothing
with the parts but visit them. An action is assembled from its visits if they explain all of it: it
runs in the same way whenever they are answered in the same way, their nodes are part of its result
and the only source of `break`s in it, and their diagnostics stay and are the only ones that are due
to places. Whatever is built by the rules of lowering is assembled from its visits.
-/

namespace SwiftToKotlin.Lowering

open Swift (Node Role)

variable {α β : Type}

/-! ## Growing diagnostics and tables -/

/-- Every case that has a name in the table has it in the other one. -/
def CaseTable.SettledIn (table other : CaseTable) : Prop :=
  ∀ key name, table.entries.lookup key = some name → other.entries.lookup key = some name

/-- Diagnostics have only been added, and the cases that had names have kept them. -/
def Grows (s t : State) : Prop :=
  s.diagnostics <+: t.diagnostics ∧ s.cases.SettledIn t.cases

instance : IsPreorder State Grows where
  refl s := ⟨List.prefix_refl s.diagnostics, fun _ _ h => h⟩
  trans _ _ _ h h' := ⟨h.1.trans h'.1, fun key name hs => h'.2 key name (h.2 key name hs)⟩

theorem Grows.of_framed (h : Framed view s t) : Grows s t :=
  ⟨h.diagnostics, h.cases⟩

/-- No step of lowering takes a diagnostic or a name back. -/
def growth : Discipline where
  value := Grows
  statement := Grows
  value_preorder := inferInstance
  statement_preorder := inferInstance
  statement_of_value _ _ h := h
  report cause range := (keepsLocals_report cause range).mono fun _ _ => .of_framed
  nameCase enum case style := (keepsLocals_nameCase enum case style).mono fun _ _ => .of_framed
  reference name range := (keepsLocals_reference name range).mono fun _ _ => .of_framed
  declare name ty := (keepsOuter_declare name ty).mono fun _ _ => .of_framed
  narrow name ty := (keepsOuter_narrow name ty).mono fun _ _ => .of_framed
  declareFresh name ty := (keepsOuter_declareFresh name ty).mono fun _ _ => .of_framed
  surrounded_value {_ _ change} _ h context state := h context (state.amid change)
  surrounded_statement {_ _ change} _ h context state := h context (state.amid change)
  inBlock h context state := h context state.opened
  inClosure h context state := h context state.enclosed

/-- Lowering the parts only adds diagnostics and names. -/
abbrev Descent.Growing (descent : Descent) : Prop :=
  descent.Follows growth

theorem Descent.Growing.outcome {descent : Descent} (h : descent.Growing) (context)
    (visit : Visit) : Grows visit.state (descent.outcome context visit).2 := by
  obtain ⟨role, node, state⟩ := visit
  cases role with
  | statement => exact h.statement node context state
  | value => exact h.value node context state

/-! ## Scenes -/

/-- What is fixed while one construct is lowered: the lowering of its parts, the places in which
they may be visited, the extensions whose members they may be, and what the construct itself may
refuse or leave, due to its own place. -/
structure Scene where
  context : Context
  below : Descent
  follows : below.Follows stackDiscipline
  allowed : Place → Role → Node → Prop
  extensions : Kotlin.Ty → String → Prop
  refused : Diagnostic → Prop
  left : Option SourceRange → Prop

namespace Scene

variable (scene : Scene)

/-- The frame of the scene, in which comments and names are no matter. -/
def frame : Frame :=
  { Frame.free with
    allowed := scene.allowed
    extensions := scene.extensions
    refused := scene.refused
    left := scene.left }

theorem growing : scene.below.Growing where
  statement node := (scene.follows.statement node).mono fun _ _ => Grows.of_framed
  value node := (scene.follows.value node).mono fun _ _ => Grows.of_framed

def run (action : Descent → Lower α) (state : State) : α × State :=
  ((action scene.below).run scene.context).run state

def outcome (visit : Visit) : List Kotlin.Node × State :=
  scene.below.outcome scene.context visit

/-- The nodes that visits are answered with. -/
def answers (trace : List Visit) : List Kotlin.Node :=
  trace.flatMap fun visit => (scene.outcome visit).1

@[simp] theorem answers_nil : scene.answers [] = [] :=
  rfl

@[simp] theorem answers_append (first second) :
    scene.answers (first ++ second) = scene.answers first ++ scene.answers second :=
  List.flatMap_append

/-- The construct may report the diagnostic itself. -/
def Fresh (d : Diagnostic) : Prop :=
  d.isPlaced = true → scene.refused d

/-- Nothing was visited in between. -/
structure Steady (s t : State) : Prop where
  surroundings : t.surroundings = s.surroundings
  grows : Grows s t
  fresh : ∀ d ∈ t.diagnostics, d ∈ s.diagnostics ∨ scene.Fresh d

instance : IsPreorder State scene.Steady where
  refl s := ⟨rfl, refl_of Grows s, fun _ h => .inl h⟩
  trans _ _ _ h h' :=
    { surroundings := h'.surroundings.trans h.surroundings
      grows := trans_of Grows h.grows h'.grows
      fresh := fun d hd => (h'.fresh d hd).elim (h.fresh d) .inr }

variable {scene}

/-! ## Steady actions -/

theorem steady_of_same {action : Lower α}
    (hsurroundings : ∀ context state,
      ((action.run context).run state).2.surroundings = state.surroundings)
    (hdiagnostics : ∀ context state,
      ((action.run context).run state).2.diagnostics = state.diagnostics)
    (hcases : ∀ context state, ((action.run context).run state).2.cases = state.cases) :
    Keeps scene.Steady action := by
  intro context state
  refine ⟨hsurroundings context state, ?_, fun d hd => .inl ?_⟩
  · rw [Grows, hdiagnostics context state, hcases context state]
    exact refl_of Grows state
  · rwa [hdiagnostics context state] at hd

theorem steady_report (h : scene.Fresh ⟨cause, range⟩) :
    Keeps scene.Steady (report cause range) := by
  intro context state
  refine ⟨rfl, ⟨List.prefix_append _ _, fun _ _ h => h⟩, fun d hd => ?_⟩
  rcases List.mem_append.1 hd with hold | hnew
  · exact .inl hold
  · rw [List.mem_singleton.1 hnew]
    exact .inr h

theorem steady_silent (h : Silent action) : Keeps scene.Steady action :=
  h _ fun _ _ _ hplaced => steady_report fun htrue => absurd htrue (hplaced ▸ Bool.false_ne_true)

theorem steady_refuse (h : scene.Fresh ⟨.noEquivalent obstacle, range⟩) :
    Keeps scene.Steady (refuse obstacle range) :=
  (steady_report h).bind fun _ => .pure _

theorem steady_declare (name : String) (ty) : Keeps scene.Steady (declare name ty) :=
  steady_of_same (fun _ _ => rfl) (fun _ _ => rfl) fun _ _ => rfl

theorem steady_nameCase (enum case : String) (style) :
    Keeps scene.Steady (nameCase enum case style) :=
  fun context state =>
    ⟨rfl, .of_framed (keepsLocals_nameCase enum case style context state), fun _ h => .inl h⟩

theorem steady_reference (name : String) (range) :
    Keeps scene.Steady (Expression.reference name range) := by
  intro context state
  obtain ⟨written, anonymousMax, hrun⟩ := exists_run_reference name range context state
  rw [hrun]
  exact ⟨rfl, ⟨List.prefix_refl _, fun _ _ h => h⟩, fun _ h => .inl h⟩

/-! ## Traces -/

variable (scene)

/-- The surroundings tell the place, and an extension that parts may be members of. -/
structure Admits (place : Place) (around : Surroundings) : Prop extends place.Matches around where
  extension : ∀ receiver name, around.scope = .extension receiver name →
    scene.extensions receiver name

namespace Admits

variable {scene} (h : scene.Admits place around)

include h

theorem enter (body : Body) : scene.Admits (place.enter body) (body.change around) where
  toMatches := h.toMatches.enter body
  extension := by cases body <;> exact h.extension

theorem expecting (expectedEnum) : scene.Admits place { around with expectedEnum } :=
  ⟨h.toMatches.expecting expectedEnum, h.extension⟩

end Admits

/-- The visits explain what the action does from the state on, given the nodes made before. -/
structure Explains (made : List Kotlin.Node) (action : Descent → Lower α)
    (parts : α → List Kotlin.Node) (state : State) (trace : List Visit) : Prop where
  surroundings : (scene.run action state).2.surroundings = state.surroundings
  allowed : ∀ visit ∈ trace, ∃ place : Place,
    scene.Admits place visit.state.surroundings ∧ scene.allowed place visit.role visit.node
  news : ∀ d ∈ (scene.run action state).2.diagnostics, d ∈ state.diagnostics ∨ scene.Fresh d ∨
    ∃ visit ∈ trace, d ∈ (scene.outcome visit).2.diagnostics ∧ d ∉ visit.state.diagnostics
  told : ∀ visit ∈ trace, Grows (scene.outcome visit).2 (scene.run action state).2
  built : scene.frame.Around (made ++ scene.answers trace) (parts (scene.run action state).1)
  /-- Only the answers to these visits matter. -/
  determined : ∀ other : Descent,
    (∀ visit ∈ trace, other.outcome scene.context visit = scene.outcome visit) →
      ((action other).run scene.context).run state = scene.run action state
  /-- What one of these visits is made to report by another lowering is reported. -/
  sensitive : ∀ (other : Descent) (special : Visit), other.Growing →
    (∀ visit, visit ≠ special → other.outcome scene.context visit = scene.outcome visit) →
      special ∈ trace →
        Grows (other.outcome scene.context special).2
          (((action other).run scene.context).run state).2

namespace Explains

variable {scene} {parts : α → List Kotlin.Node}

variable {f : α → Descent → Lower β}

/-- A single visit, whose answer is all of the result. -/
theorem visit (hsurroundings : (scene.run action state).2.surroundings = state.surroundings)
    (houtcome : ∀ other : Descent, other.outcome scene.context ⟨role, node, state⟩ =
      (parts (((action other).run scene.context).run state).1,
        (((action other).run scene.context).run state).2))
    (hparts : ∀ a b, parts a = parts b → a = b) (hplace : scene.Admits place state.surroundings)
    (h : scene.allowed place role node) :
    scene.Explains [] action parts state [⟨role, node, state⟩] := by
  have hown : scene.outcome ⟨role, node, state⟩ =
      (parts (scene.run action state).1, (scene.run action state).2) :=
    houtcome _
  exact {
    surroundings := hsurroundings
    allowed := by simpa using ⟨place, hplace, h⟩
    news := fun d hd => by
      by_cases hold : d ∈ state.diagnostics
      · exact .inl hold
      · exact .inr (.inr ⟨_, List.mem_singleton_self _, by rwa [hown], hold⟩)
    told := fun visit hvisit => by
      rw [List.mem_singleton.1 hvisit, hown]
      exact refl_of Grows _
    built := .of_mem_iff (by simp [answers, hown])
    determined := fun other hother => by
      have heq := (houtcome other).symm.trans ((hother _ (List.mem_singleton_self _)).trans hown)
      exact Prod.ext (hparts _ _ (congrArg Prod.fst heq)) (congrArg Prod.snd heq :)
    sensitive := fun other special _ _ hspecial => by
      rw [List.mem_singleton.1 hspecial, houtcome]
      exact refl_of Grows _ }

theorem statement (hplace : scene.Admits place state.surroundings)
    (h : scene.allowed place .statement node) :
    scene.Explains [] (fun descent => descent.statement node) (fun nodes => nodes) state
      [⟨.statement, node, state⟩] :=
  visit (scene.follows.statement node scene.context state).surroundings (fun _ => rfl)
    (fun _ _ => id) hplace h

theorem value (hplace : scene.Admits place state.surroundings)
    (h : scene.allowed place .value node) :
    scene.Explains [] (fun descent => descent.value node) (fun node => [node]) state
      [⟨.value, node, state⟩] :=
  visit (scene.follows.value node scene.context state).surroundings (fun _ => rfl)
    (fun _ _ => List.singleton_inj.1) hplace h

/-- No visit at all. -/
theorem steady (h : Keeps scene.Steady action)
    (hparts : scene.frame.Around made (parts ((action.run scene.context).run state).1)) :
    scene.Explains made (fun _ => action) parts state [] where
  surroundings := (h scene.context state).surroundings
  allowed := by simp
  news d hd := ((h scene.context state).fresh d hd).imp_right .inl
  told := by simp
  built := by rwa [answers_nil, List.append_nil]
  determined _ _ := rfl
  sensitive := by simp

/-- The nodes that a first action makes are handed on to the second. -/
theorem bind (hfirst : scene.Explains [] action parts state first)
    (hsecond : scene.Explains (made ++ parts (scene.run action state).1)
      (f (scene.run action state).1) more (scene.run action state).2 second)
    (hgrows : ∀ other : Descent, other.Growing →
      Keeps Grows (f (((action other).run scene.context).run state).1 other)) :
    scene.Explains made (fun descent => action descent >>= fun a => f a descent) more state
      (first ++ second) where
  surroundings := hsecond.surroundings.trans hfirst.surroundings
  allowed visit hvisit :=
    (List.mem_append.1 hvisit).elim (hfirst.allowed visit) (hsecond.allowed visit)
  news d hd := by
    rcases hsecond.news d hd with hmiddle | hfresh | ⟨visit, hvisit, hnew⟩
    · rcases hfirst.news d hmiddle with hold | hfresh | ⟨visit, hvisit, hnew⟩
      · exact .inl hold
      · exact .inr (.inl hfresh)
      · exact .inr (.inr ⟨visit, List.mem_append_left _ hvisit, hnew⟩)
    · exact .inr (.inl hfresh)
    · exact .inr (.inr ⟨visit, List.mem_append_right _ hvisit, hnew⟩)
  told visit hvisit := by
    rcases List.mem_append.1 hvisit with hearly | hlate
    · exact trans_of Grows (hfirst.told visit hearly) (hgrows _ scene.growing _ _)
    · exact hsecond.told visit hlate
  built := by
    rw [answers_append, ← List.append_assoc]
    exact (((Kotlin.BuiltAround.refl made).append hfirst.built).append (.refl _)).trans
      hsecond.built
  determined other hother := by
    have hsame := hfirst.determined other fun visit hvisit =>
      hother visit (List.mem_append_left _ hvisit)
    have hrest := hsecond.determined other fun visit hvisit =>
      hother visit (List.mem_append_right _ hvisit)
    rw [← hsame] at hrest
    exact hrest.trans (by rw [hsame]; rfl)
  sensitive other special hother hagrees hspecial := by
    by_cases hearly : special ∈ first
    · exact trans_of Grows (hfirst.sensitive other special hother hagrees hearly)
        (hgrows other hother _ _)
    -- The first action does not notice the difference, so the second starts as before.
    · have hlate := (List.mem_append.1 hspecial).resolve_left hearly
      have hsame := hfirst.determined other fun visit hvisit =>
        hagrees visit fun heq => hearly (heq ▸ hvisit)
      have hsensed := hsecond.sensitive other special hother hagrees hlate
      rw [← hsame] at hsensed
      exact hsensed

/-- What is made of some nodes is made of those that they are built around. -/
theorem handing (h : scene.Explains made action parts state trace)
    (hmade : scene.frame.Around others made) : scene.Explains others action parts state trace :=
  { h with built := (hmade.append (.refl _)).trans h.built }

/-- An action that visits nothing can come first. -/
theorem after (h : Keeps scene.Steady action)
    (hrest : scene.Explains made (f ((action.run scene.context).run state).1) more
      ((action.run scene.context).run state).2 trace) :
    scene.Explains made (fun descent => action >>= fun a => f a descent) more state trace where
  surroundings := hrest.surroundings.trans (h scene.context state).surroundings
  allowed := hrest.allowed
  news d hd := by
    rcases hrest.news d hd with hmiddle | hlater
    · exact ((h scene.context state).fresh d hmiddle).imp id .inl
    · exact .inr hlater
  told := hrest.told
  built := hrest.built
  determined := hrest.determined
  sensitive := hrest.sensitive

/-- An action in a state of its own, of which only the diagnostics and the table of cases are shared
with the outside. -/
theorem framed (enter : State → State) (leave : State → α × State → β × State)
    (hrun : ∀ descent context state, ((outer descent).run context).run state =
      leave state (((action descent).run context).run (enter state)))
    (henter : ∀ state, (enter state).diagnostics = state.diagnostics)
    (hleave : ∀ state result, (leave state result).2.diagnostics = result.2.diagnostics)
    (hcases : ∀ state result, (leave state result).2.cases = result.2.cases)
    (hparts : ∀ state result, more (leave state result).1 = parts result.1)
    (hsurroundings : ∀ state result, result.2.surroundings = (enter state).surroundings →
      (leave state result).2.surroundings = state.surroundings)
    (h : scene.Explains made action parts (enter state) trace) :
    scene.Explains made outer more state trace := by
  have heq : scene.run outer state = leave state (scene.run action (enter state)) := hrun _ _ _
  exact {
    surroundings := by
      rw [heq]
      exact hsurroundings state _ h.surroundings
    allowed := h.allowed
    news := by
      rw [heq, hleave, ← henter state]
      exact h.news
    told := fun visit hvisit => by
      rw [heq, Grows, hleave, hcases]
      exact h.told visit hvisit
    built := by
      rw [heq, hparts]
      exact h.built
    determined := fun other hother => by
      rw [hrun, heq, h.determined other hother]
    sensitive := fun other special hother hagrees hspecial => by
      rw [hrun, Grows, hleave, hcases]
      exact h.sensitive other special hother hagrees hspecial }

theorem surrounded (h : scene.Explains made action parts (state.amid change) trace) :
    scene.Explains made (fun descent => surrounded change (action descent)) parts state trace :=
  .framed (·.amid change)
    (fun state result => (result.1, { result.2 with surroundings := state.surroundings }))
    (fun _ _ _ => rfl) (fun _ => rfl) (fun _ _ => rfl) (fun _ _ => rfl) (fun _ _ => rfl)
    (fun _ _ _ => rfl) h

/-- A look at the surroundings can come first. -/
theorem looking {f : Surroundings → Descent → Lower α}
    (h : scene.Explains made (f state.surroundings) parts state trace) :
    scene.Explains made (fun descent => Lowering.surroundings >>= fun around => f around descent)
      parts state trace :=
  { h with }

theorem inBlock (h : scene.Explains made action parts state.opened trace) :
    scene.Explains made (fun descent => inBlock (action descent)) parts state trace :=
  .framed State.opened
    (fun _ result => (result.1, { result.2 with locals := result.2.locals.tail }))
    (fun _ _ _ => rfl) (fun _ => rfl) (fun _ _ => rfl) (fun _ _ => rfl) (fun _ _ => rfl)
    (fun _ _ h => h) h

theorem inClosure (h : scene.Explains made action parts state.enclosed trace) :
    scene.Explains made (fun descent => inClosure (action descent)) (fun result => parts result.1)
      state trace :=
  .framed State.enclosed
    (fun state result => ((result.1, result.2.anonymousMax),
      { result.2 with
        surroundings := state.surroundings
        locals := result.2.locals.tail
        anonymousMax := state.anonymousMax }))
    (fun _ _ _ => rfl) (fun _ => rfl) (fun _ _ => rfl) (fun _ _ => rfl) (fun _ _ => rfl)
    (fun _ _ _ => rfl) h

end Explains

variable {scene}

/-- What is built by the rules grows from the state it starts in. -/
theorem grows_of_builds
    (h : scene.frame.Builds role place made action parts known) (hother : other.Growing) :
    Keeps Grows (action other) := by
  have hgrows := h.keeps (fun _ => trivial) hother
  cases role with
  | value => exact hgrows
  | statement => exact hgrows

/-- What is built by the rules is explained by visits. -/
theorem exists_explains {known : α → Prop}
    (h : scene.frame.Builds role place made action parts known) (state)
    (hstate : scene.Admits place state.surroundings) :
    ∃ trace, scene.Explains made action parts state trace := by
  induction h generalizing state with
  | value h => exact ⟨_, .value hstate h⟩
  | statement h => exact ⟨_, .statement hstate h⟩
  | given h => exact ⟨_, .steady (.pure _) h⟩
  | knowing h hf ih ihf =>
    obtain ⟨first, hfirst⟩ := ih state hstate
    obtain ⟨second, hsecond⟩ := ihf _ (h.known_run (fun _ => trivial) _ _ state) _
      (hfirst.surroundings ▸ hstate)
    refine ⟨first ++ second, hfirst.bind hsecond fun other hother => ?_⟩
    exact grows_of_builds (hf _ (h.known_run (fun _ => trivial) _ _ state)) hother
  | handing _ hmade ih =>
    obtain ⟨trace, htrace⟩ := ih state hstate
    exact ⟨trace, htrace.handing hmade⟩
  | silent h => exact ⟨_, .steady (steady_silent h) (.refl _)⟩
  | nameCase => exact ⟨_, .steady (steady_nameCase _ _ _) (.refl _)⟩
  | declare => exact ⟨_, .steady (steady_declare _ _) (.refl _)⟩
  | narrow | declareFresh =>
    exact ⟨_, .steady (steady_of_same (fun _ _ => rfl) (fun _ _ => rfl) fun _ _ => rfl) (.refl _)⟩
  | reference name range =>
    refine ⟨_, .steady (steady_reference name range) ?_⟩
    obtain ⟨written, _, hrun⟩ := exists_run_reference name range scene.context state
    rw [hrun]
    exact Frame.around_reference written
  | refuse _ h => exact ⟨_, .steady (steady_refuse h) (.around trivial (by simp))⟩
  | @refuseIf obstacle range _ _ _ test _ _ h _ ih =>
    by_cases htest : test state.surroundings
    · have hrefused := h state.surroundings hstate.toMatches htest
      have hrefusal : scene.Explains [] (fun _ => refuse obstacle range) (fun node => [node]) state
          [] :=
        .steady (steady_refuse fun _ => hrefused) (.around trivial (by simp))
      exact ⟨[], .looking (by simpa only [htest, if_true] using hrefusal)⟩
    · obtain ⟨trace, htrace⟩ := ih state hstate
      exact ⟨trace, .looking (by simpa only [htest, if_false] using htrace)⟩
  | @breakStmt range _ _ hrefused hleft =>
    cases hcase : state.surroundings.inCase with
    | true =>
      have hrefusal : scene.Explains [] (fun _ => refuse .breakInCase range) (fun node => [node])
          state [] :=
        .steady (steady_refuse fun _ => hrefused (hstate.inCase.1 hcase))
          (.around trivial (by simp))
      exact ⟨[], .looking (by simpa only [hcase, if_true] using hrefusal)⟩
    | false =>
      have hkept : scene.Explains [] (fun _ => Pure.pure (⟨.breakStmt, range⟩ : Kotlin.Node))
          (fun node => [node]) state [] :=
        .steady (.pure _) (.around (hleft fun hbody => by simp [hstate.inCase.2 hbody] at hcase)
          (by simp))
      exact ⟨[], .looking (by simpa only [hcase, Bool.false_eq_true, if_false] using hkept)⟩
  | entering _ _ ih =>
    obtain ⟨trace, htrace⟩ := ih { state with surroundings := _ } (hstate.enter _)
    exact ⟨trace, htrace.surrounded⟩
  | withScope scope hscope _ ih =>
    obtain ⟨trace, htrace⟩ := ih { state with surroundings := _ }
      ⟨hstate.toMatches.withScope scope, hscope⟩
    exact ⟨trace, htrace.surrounded⟩
  | expecting expectedEnum _ ih =>
    obtain ⟨trace, htrace⟩ := ih { state with surroundings := _ } (hstate.expecting expectedEnum)
    exact ⟨trace, htrace.surrounded⟩
  | inBlock _ ih =>
    obtain ⟨trace, htrace⟩ := ih state.opened hstate
    exact ⟨trace, htrace.inBlock⟩
  | inClosure _ ih =>
    obtain ⟨trace, htrace⟩ := ih state.enclosed (hstate.enter .closure)
    exact ⟨trace, htrace.inClosure⟩

/-! ## What results are made of -/

/-- Beside being assembled, the result has the property `Q` once all visits have `P`. -/
structure Yields (scene : Scene) (P : Visit → Prop) (place : Place) (made : List Kotlin.Node)
    (action : Descent → Lower α) (parts : α → List Kotlin.Node) (Q : α → Prop) : Prop where
  grows : ∀ other : Descent, other.Growing → Keeps Grows (action other)
  explained : ∀ state, scene.Admits place state.surroundings →
    ∃ trace, scene.Explains made action parts state trace ∧
      ((∀ visit ∈ trace, P visit) → Q (scene.run action state).1)

namespace Yields

variable {f : α → Descent → Lower β}

theorem of_builds (h : scene.frame.Builds role place made action parts Q) :
    scene.Yields P place made action parts Q where
  grows _ hother := grows_of_builds h hother
  explained state hstate := by
    obtain ⟨trace, htrace⟩ := exists_explains h state hstate
    exact ⟨trace, htrace, fun _ => h.known_run (fun _ => trivial) _ _ state⟩

theorem mono (h : scene.Yields P place made action parts Q) (hQ : ∀ a, Q a → Q' a) :
    scene.Yields P place made action parts Q' where
  grows := h.grows
  explained state hstate := by
    obtain ⟨trace, htrace, hresult⟩ := h.explained state hstate
    exact ⟨trace, htrace, fun hP => hQ _ (hresult hP)⟩

theorem pure (h : scene.frame.Around made (parts a)) (hQ : Q a) :
    scene.Yields P place made (fun _ => Pure.pure a) parts Q :=
  have hbuilds : scene.frame.Builds .value place made (fun _ => Pure.pure a) parts Q := .given h hQ
  .of_builds hbuilds

theorem statement (h : scene.allowed place .statement node) :
    scene.Yields P place [] (fun descent => descent.statement node) (fun nodes => nodes)
      fun nodes => ∃ visit, P visit ∧ visit.role = .statement ∧ visit.node = node ∧
        nodes = (scene.outcome visit).1 where
  grows _ hother := hother.statement node
  explained state hstate := ⟨_, .statement hstate h, fun hP =>
    ⟨⟨.statement, node, state⟩, hP _ (List.mem_singleton_self _), rfl, rfl, rfl⟩⟩

theorem bind (h : scene.Yields P place [] action parts Q)
    (hf : ∀ a, scene.Yields P place (made ++ parts a) (f a) more fun b => Q a → R b) :
    scene.Yields P place made (fun descent => action descent >>= fun a => f a descent) more R where
  grows other hother := (h.grows other hother).bind fun a => (hf a).grows other hother
  explained state hstate := by
    obtain ⟨first, hfirst, hQ⟩ := h.explained state hstate
    obtain ⟨second, hsecond, hR⟩ := (hf (scene.run action state).1).explained
      (scene.run action state).2 (hfirst.surroundings ▸ hstate)
    refine ⟨first ++ second, hfirst.bind hsecond fun other => (hf _).grows other, fun hP => ?_⟩
    exact hR (fun visit hvisit => hP visit (List.mem_append_right _ hvisit))
      (hQ fun visit hvisit => hP visit (List.mem_append_left _ hvisit))

theorem after (h : Keeps scene.Steady action) (hf : ∀ a, scene.Yields P place made (f a) more R) :
    scene.Yields P place made (fun descent => action >>= fun a => f a descent) more R where
  grows other hother :=
    (h.mono fun _ _ hsteady => hsteady.grows).bind fun a => (hf a).grows other hother
  explained state hstate := by
    obtain ⟨trace, htrace, hR⟩ := (hf ((action.run scene.context).run state).1).explained
      ((action.run scene.context).run state).2 ((h scene.context state).surroundings ▸ hstate)
    exact ⟨trace, htrace.after h, hR⟩

theorem mapM (items : List α) (h : ∀ a ∈ items, scene.Yields P place [] (f a) more (Q a)) :
    scene.Yields P place [] (fun descent => items.mapM fun a => f a descent)
      (List.flatMap more) (List.Forall₂ Q items) := by
  induction items with
  | nil => exact .pure (.of_mem_iff (by simp)) .nil
  | cons item rest ih =>
    simp only [List.mapM_cons]
    have hrest := ih fun a ha => h a (List.mem_cons_of_mem _ ha)
    exact (h item List.mem_cons_self).bind fun _ => hrest.bind fun _ =>
      .pure (.of_mem_iff (by simp)) fun htail hhead => .cons hhead htail

theorem surrounded {inner : Place}
    (hchange : ∀ around, scene.Admits place around → scene.Admits inner (change around))
    (h : scene.Yields P inner made action parts Q) :
    scene.Yields P place made (fun descent => surrounded change (action descent)) parts Q where
  grows other hother context state := h.grows other hother context (state.amid change)
  explained state hstate := by
    obtain ⟨trace, htrace, hQ⟩ := h.explained (state.amid change) (hchange _ hstate)
    exact ⟨trace, htrace.surrounded, hQ⟩

theorem inBlock (h : scene.Yields P place made action parts Q) :
    scene.Yields P place made (fun descent => inBlock (action descent)) parts Q where
  grows other hother context state := h.grows other hother context state.opened
  explained state hstate := by
    obtain ⟨trace, htrace, hQ⟩ := h.explained state.opened hstate
    exact ⟨trace, htrace.inBlock, hQ⟩

theorem inClosure (h : scene.Yields P (place.enter .closure) made action parts Q) :
    scene.Yields P place made (fun descent => inClosure (action descent))
      (fun result => parts result.1) fun result => Q result.1 where
  grows other hother context state := h.grows other hother context state.enclosed
  explained state hstate := by
    obtain ⟨trace, htrace, hQ⟩ := h.explained state.enclosed (hstate.enter .closure)
    exact ⟨trace, htrace.inClosure, hQ⟩

end Yields

/-- The nodes are the answers to visits of the statements in order, which have the property. -/
def MadeBy (scene : Scene) (P : Visit → Prop) (statements : List Node)
    (nodes : List Kotlin.Node) : Prop :=
  ∃ visits : List Visit, visits.map Visit.node = statements ∧
    (∀ visit ∈ visits, visit.role = .statement ∧ P visit) ∧ nodes = scene.answers visits

theorem madeBy_flatten {answers : List (List Kotlin.Node)}
    (h : List.Forall₂ (fun node answer => ∃ visit, P visit ∧ visit.role = .statement ∧
      visit.node = node ∧ answer = (scene.outcome visit).1) statements answers) :
    scene.MadeBy P statements answers.flatten := by
  induction h with
  | nil => exact ⟨[], rfl, by simp, rfl⟩
  | cons hvisit _ ih =>
    obtain ⟨visit, hP, hrole, rfl, rfl⟩ := hvisit
    obtain ⟨visits, rfl, hvisits, hanswers⟩ := ih
    refine ⟨visit :: visits, rfl, by simpa using ⟨⟨hrole, hP⟩, hvisits⟩, ?_⟩
    rw [List.flatten_cons, hanswers]
    rfl

end Scene

/-! ## Statements in order -/

open Scene (Yields)

variable {scene : Scene}

theorem yields_statements (h : scene.frame.AllAllowed place .statement nodes) :
    scene.Yields P place [] (fun descent => descent.statements nodes) (fun made => made)
      (scene.MadeBy P nodes) := by
  have hall := Yields.mapM nodes fun node hnode => Yields.statement (P := P) (h node hnode)
  exact (hall.bind fun _ => .pure (.of_mem_iff (by simp)) Scene.madeBy_flatten).inBlock

namespace Statement

theorem yields_whenBranch (hpatterns : scene.frame.AllAllowed place .value case.patterns)
    (hbody : scene.frame.AllAllowed (place.enter .switchCase) .statement
      (withoutLastBreak case.body)) :
    scene.Yields P place [] (fun descent => whenBranch descent case) Kotlin.WhenBranch.parts
      fun branch => scene.MadeBy P (withoutLastBreak case.body) branch.body := by
  have hcondition (pattern : Node) (hpattern : pattern ∈ case.patterns) :
      scene.frame.Builds .value place [] (fun descent => whenCondition descent pattern)
        Kotlin.WhenCondition.parts fun _ => True :=
    builds_whenCondition (hpatterns pattern hpattern)
  have hstatements := (yields_statements (P := P) hbody).surrounded fun _ haround =>
    haround.enter .switchCase
  exact (Yields.of_builds (.mapM case.patterns hcondition)).bind fun _ =>
    hstatements.bind fun _ => .pure (.refl _) fun hmade _ => hmade

theorem yields_switchStmt (hsubject : scene.allowed place .value subject)
    (hpatterns : ∀ case ∈ cases, scene.frame.AllAllowed place .value case.patterns)
    (hbodies : ∀ case ∈ cases,
      scene.frame.AllAllowed (place.enter .switchCase) .statement (withoutLastBreak case.body))
    (range) :
    scene.Yields P place [] (fun descent => switchStmt descent subject cases range)
      (fun node => [node]) fun node => ∃ subject branches,
        node = ⟨.whenStmt (some subject) branches, range⟩ ∧
          List.Forall₂ (fun case branch =>
            scene.MadeBy P (withoutLastBreak case.body) branch.body) cases branches := by
  have hcases := Yields.mapM cases fun case hcase =>
    yields_whenBranch (P := P) (hpatterns case hcase) (hbodies case hcase)
  refine .after (keeps_enumOf subject) fun enum => ?_
  have hlowered : scene.frame.MakesNode .value place [] fun descent => descent.value subject :=
    .value hsubject
  refine (Yields.of_builds hlowered).bind fun lowered => ?_
  refine (hcases.surrounded fun _ haround => haround.expecting enum).bind fun branches => ?_
  exact .pure (.around (by simp) (by simp)) fun hbranches _ => ⟨lowered, branches, rfl, hbranches⟩

end Statement

theorem yields_switchStmt (h : scene.frame.Lowers place node)
    (hc : node.construct = .switchStmt subject cases) (range) :
    scene.Yields P place [] (fun descent => Statement.switchStmt descent subject cases range)
      (fun node => [node]) fun node => ∃ lowered branches,
        node = ⟨.whenStmt (some lowered) branches, range⟩ ∧
          List.Forall₂ (fun case branch => scene.MadeBy P (Statement.withoutLastBreak case.body)
            branch.body) cases branches := by
  refine Statement.yields_switchStmt ?_ (fun case hcase pattern hpattern => ?_)
    (fun case hcase statement hstatement => ?_) range
  · exact h.one hc (by simp) rfl
  · refine h.one hc (List.mem_append_right _ (List.mem_flatMap.2 ⟨case, hcase, ?_⟩)) rfl
    simpa using hpattern
  · refine h.one hc (List.mem_append_right _ (List.mem_flatMap.2 ⟨case, hcase, ?_⟩)) rfl
    simpa using Statement.withoutLastBreak_subset _ hstatement

end SwiftToKotlin.Lowering
