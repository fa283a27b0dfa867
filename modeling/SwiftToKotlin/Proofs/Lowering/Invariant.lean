import SwiftToKotlin.Proofs.Lowering.Parallel.Declaration

/-!
# Invariants of the locals

A property of the locals that holds of no locals at all, and that is kept when a local is declared
and when a block is opened or closed, holds at every visit. A run is compared with itself: the
states before a visit have the property or the visit cannot be asked for.
-/

namespace SwiftToKotlin

theorem Diagnostic.relocate_id (diagnostic : Diagnostic) : diagnostic.relocate id = diagnostic :=
  rfl

namespace Lowering

open Swift (Node Ty)

theorem Declaration.relocate_id (declaration : Declaration) :
    declaration.relocate id = declaration := by
  rcases declaration with ⟨kind, decl⟩ | ⟨name, ty⟩
  · have hnode : Node.relocate id = id := funext Node.relocate_id
    simp [relocate, hnode, Swift.TypeDecl.map]
  · rfl

theorem Context.relocate_id (context : Context) : context.relocate id = context := by
  have hdeclaration : Declaration.relocate id = id := funext Declaration.relocate_id
  simp [relocate, DeclaredTypes.relocate, hdeclaration]

/-- A property of the locals that every step of lowering keeps. -/
structure Locals.Invariant (P : Locals → Prop) : Prop where
  start : P []
  declare : ∀ {locals : Locals} (name : String) (ty : Option Ty), P locals →
    P (locals.declare name ty)
  narrow : ∀ {locals : Locals} (name : String) (ty : Option Ty), P locals →
    P (locals.narrow name ty)
  declareFresh : ∀ {locals : Locals} (name : String) (ty : Option Ty), P locals →
    P (locals.declareFresh name ty).1
  opened : ∀ {locals : Locals}, P locals → P (.empty :: locals)
  closed : ∀ {locals : Locals}, P locals → P locals.tail

/-- The correspondence of a run with itself, as long as the locals have the property. -/
def Correspondence.keeping (context : Context) (h : Locals.Invariant P) : Correspondence where
  context := context
  move := id
  move_none := Relocation.id_none
  locals := fun _ l l' => l' = l ∧ P l
  typeOf? := by rintro _ _ _ ⟨rfl, _⟩ _; rfl
  written := by rintro _ _ _ ⟨rfl, _⟩ _; rfl
  declare := by rintro _ _ _ ⟨rfl, hl⟩ name ty; exact ⟨rfl, h.declare name ty hl⟩
  narrow := by rintro _ _ _ ⟨rfl, hl⟩ name ty; exact ⟨rfl, h.narrow name ty hl⟩
  declareFresh := by rintro _ _ _ ⟨rfl, hl⟩ name ty; exact ⟨rfl, rfl, h.declareFresh name ty hl⟩
  opened := by rintro _ _ _ ⟨rfl, hl⟩; exact ⟨rfl, h.opened hl⟩
  closed := by rintro _ _ _ ⟨rfl, hl⟩; exact ⟨rfl, h.closed hl⟩

namespace Correspondence

variable {context : Context} {h : Locals.Invariant P}

theorem context'_keeping : (keeping context h).context' = context :=
  Context.relocate_id context

theorem relates_keeping : (keeping context h).Relates depth s t ↔ t = s ∧ P s.locals := by
  have htold : s.diagnostics.map (Diagnostic.relocate id) = s.diagnostics := by
    simp [funext Diagnostic.relocate_id]
  constructor
  · intro hrelates
    obtain ⟨hsurroundings, ⟨hlocals, hP⟩, hanonymous, hcases, hdiagnostics⟩ := hrelates
    cases s
    cases t
    simp_all [keeping]
  · rintro ⟨rfl, hP⟩
    exact ⟨rfl, ⟨rfl, hP⟩, rfl, rfl, htold.symm⟩

/-- Actions run side by side if they do the same and keep the property. -/
theorem parallel_keeping_iff {α : Type} {f : α → α} (hf : ∀ a, f a = a) {first second : Lower α} :
    Parallel (keeping context h) blocks f first second ↔
      ∀ s : State, P s.locals → (second.run context).run s = (first.run context).run s ∧
        P ((first.run context).run s).2.locals := by
  unfold Parallel
  rw [context'_keeping]
  constructor
  · intro hparallel s hP
    obtain ⟨hresult, hstate⟩ :=
      hparallel blocks s s (Nat.le_refl blocks) (relates_keeping.2 ⟨rfl, hP⟩)
    obtain ⟨hsame, hP'⟩ := relates_keeping.1 hstate
    exact ⟨Prod.ext (hresult.trans (hf _)) hsame, hP'⟩
  · intro hruns depth s t _ hrelates
    obtain ⟨rfl, hP⟩ := relates_keeping.1 hrelates
    obtain ⟨hsame, hP'⟩ := hruns t hP
    refine ⟨?_, relates_keeping.2 ⟨congrArg Prod.snd hsame, hP'⟩⟩
    rw [hsame]
    exact (hf _).symm

theorem parallelNodes_keeping_iff :
    ParallelNodes (keeping context h) blocks first second ↔
      ∀ s : State, P s.locals → (second.run context).run s = (first.run context).run s ∧
        P ((first.run context).run s).2.locals :=
  parallel_keeping_iff fun nodes => by
    change nodes.map (Kotlin.Node.relocate id) = nodes
    rw [funext Kotlin.Node.relocate_id]
    exact List.map_id nodes

theorem parallelNode_keeping_iff :
    ParallelNode (keeping context h) blocks first second ↔
      ∀ s : State, P s.locals → (second.run context).run s = (first.run context).run s ∧
        P ((first.run context).run s).2.locals :=
  parallel_keeping_iff Kotlin.Node.relocate_id

theorem relocate_keeping (node : Node) : node.relocate (keeping context h).move = node :=
  Node.relocate_id node

/-- Descents that agree where the locals have the property run side by side. -/
theorem below_keeping_of_agree (hdescent : (keeping context h).Below descent descent)
    (hagree : ∀ visit : Visit, P visit.state.locals →
      other.outcome context visit = descent.outcome context visit) :
    (keeping context h).Below descent other := by
  constructor
  · intro node
    have hself := hdescent.statement node
    rw [relocate_keeping, parallelNodes_keeping_iff] at hself ⊢
    intro s hP
    exact ⟨hagree ⟨.statement, node, s⟩ hP, (hself s hP).2⟩
  · intro node
    have hself := hdescent.value node
    rw [relocate_keeping, parallelNode_keeping_iff] at hself ⊢
    intro s hP
    have hsame := hagree ⟨.value, node, s⟩ hP
    simp only [Descent.outcome, Prod.mk.injEq, List.cons.injEq, and_true] at hsame
    exact ⟨Prod.ext hsame.1 hsame.2, (hself s hP).2⟩

theorem Below.outcome_eq (below : (keeping context h).Below descent other)
    (hP : P visit.state.locals) :
    other.outcome context visit = descent.outcome context visit := by
  obtain ⟨role, node, s⟩ := visit
  cases role with
  | statement =>
    have hruns := below.statement node
    rw [relocate_keeping, parallelNodes_keeping_iff] at hruns
    exact (hruns s hP).1
  | value =>
    have hruns := below.value node
    rw [relocate_keeping, parallelNode_keeping_iff] at hruns
    simp only [Descent.outcome, (hruns s hP).1]

end Correspondence

/-- An invariant holds at every visit that is reached. -/
theorem Reached.invariant {root : Node}
    (hreached : Reached droppedImports root diagnostics height place visit)
    (h : Locals.Invariant P) : P visit.state.locals := by
  induction hreached with
  | root => exact h.start
  | @part height place whole part _ hasks ih =>
    -- without the property another answer to the part could not be told from the right one
    by_contra hpart
    obtain ⟨other, hagree, hdiffer⟩ := hasks
    have hdescent := descend_parallel (.keeping (.ofRoot droppedImports root) h) height
    have hbelow := Correspondence.below_keeping_of_agree hdescent fun visit hvisit =>
      hagree visit fun hsame => hpart (hsame ▸ hvisit)
    exact hdiffer (hbelow.above.outcome_eq ih)

end Lowering

end SwiftToKotlin
