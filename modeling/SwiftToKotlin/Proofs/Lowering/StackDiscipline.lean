import SwiftToKotlin.Proofs.Lowering.Discipline

/-!
# The context of lowering is a stack

Whatever is lowered, the surroundings are found again as they were left, blocks of locals are closed
as often as they are opened, and what has been reported or named stays. A statement may declare
locals in the innermost block; a value declares none.
-/

namespace SwiftToKotlin.Lowering

open Swift (Node Ty)

/-- The state `t` is left behind by an action that began in `s`. Of the locals only the view is
sure to be the same. -/
structure Framed (view : Locals → Locals) (s t : State) : Prop where
  surroundings : t.surroundings = s.surroundings
  depth : t.locals.length = s.locals.length
  locals : view t.locals = view s.locals
  diagnostics : s.diagnostics <+: t.diagnostics
  cases : ∀ key name, s.cases.entries.lookup key = some name →
    t.cases.entries.lookup key = some name
  anonymous : s.surroundings.closureDepth = 0 → t.anonymousMax = s.anonymousMax
  anonymous_le : ∀ n, s.anonymousMax = some n → ∃ m, n ≤ m ∧ t.anonymousMax = some m

variable {α β : Type}

namespace Framed

theorem refl (s : State) : Framed view s s where
  surroundings := rfl
  depth := rfl
  locals := rfl
  diagnostics := List.prefix_refl _
  cases _ _ h := h
  anonymous _ := rfl
  anonymous_le n h := ⟨n, Nat.le_refl n, h⟩

theorem trans (h : Framed view s t) (h' : Framed view t u) : Framed view s u where
  surroundings := h'.surroundings.trans h.surroundings
  depth := h'.depth.trans h.depth
  locals := h'.locals.trans h.locals
  diagnostics := h.diagnostics.trans h'.diagnostics
  cases key name hs := h'.cases key name (h.cases key name hs)
  anonymous hs := (h'.anonymous (h.surroundings ▸ hs)).trans (h.anonymous hs)
  anonymous_le n hs := by
    obtain ⟨m, hm, ht⟩ := h.anonymous_le n hs
    obtain ⟨k, hk, hu⟩ := h'.anonymous_le m ht
    exact ⟨k, Nat.le_trans hm hk, hu⟩

instance : IsPreorder State (Framed view) where
  refl := refl
  trans _ _ _ := trans

theorem mono (h : Framed id s t) : Framed view s t :=
  { h with locals := congrArg view h.locals }

end Framed

/-- The action leaves all locals as they were. -/
abbrev KeepsLocals (action : Lower α) : Prop :=
  Keeps (Framed id) action

/-- The action declares locals in the innermost block at most. -/
abbrev KeepsOuter (action : Lower α) : Prop :=
  Keeps (Framed List.tail) action

/-! ## Surroundings and blocks -/

theorem keeps_surrounded
    (hchange : ∀ around, around.closureDepth = 0 → (change around).closureDepth = 0)
    (h : Keeps (Framed view) action) : Keeps (Framed view) (surrounded change action) := by
  intro context state
  have hinner := h context (state.amid change)
  exact { hinner with
    surroundings := rfl
    anonymous := fun hs => hinner.anonymous (hchange _ hs) }

/-- What an action declares in a block of its own is gone afterwards. -/
theorem keepsLocals_inBlock (h : KeepsOuter action) :
    KeepsLocals (inBlock action) := by
  intro context state
  have hinner := h context state.opened
  exact { hinner with
    depth := congrArg List.length hinner.locals
    locals := hinner.locals }

theorem keepsLocals_inClosure (h : KeepsOuter action) :
    KeepsLocals (inClosure action) := by
  intro context state
  have hinner := keepsLocals_inBlock h context { state.enclosed with locals := state.locals }
  exact { hinner with
    surroundings := rfl
    anonymous := fun _ => rfl
    anonymous_le := fun n hn => ⟨n, Nat.le_refl n, hn⟩ }

/-! ## Single steps -/

/-- Changing the locals within the innermost block. -/
theorem Framed.of_locals {locals : Locals} (hdepth : locals.length = s.locals.length)
    (htail : locals.tail = s.locals.tail) : Framed List.tail s { s with locals } :=
  { (refl s : Framed List.tail s s) with depth := hdepth, locals := htail }

theorem keepsOuter_declare (name : String) (ty) : KeepsOuter (declare name ty) := by
  intro context state
  apply Framed.of_locals <;> cases state.locals <;> rfl

theorem keepsOuter_narrow (name : String) (ty) : KeepsOuter (narrow name ty) := by
  intro context state
  apply Framed.of_locals <;> cases hl : state.locals with
  | nil => rfl
  | cons block outer =>
    unfold Locals.narrow
    split <;> simp_all [Locals.declare]

theorem keepsOuter_declareFresh (name : String) (ty) : KeepsOuter (declareFresh name ty) := by
  intro context state
  apply Framed.of_locals <;> cases state.locals with
  | nil => rfl
  | cons block outer =>
    dsimp only [Locals.declareFresh]
    split <;> rfl

theorem keepsLocals_report (cause : Cause) (range) : KeepsLocals (report cause range) := by
  intro context state
  exact { (Framed.refl state : Framed id state state) with
    diagnostics := List.prefix_append _ _ }

/-- A case that has a name keeps it. -/
theorem CaseTable.lookup_name {table : CaseTable} {key name : String} (enum case : String) (style)
    (h : table.entries.lookup key = some name) :
    (table.name enum case style).2.entries.lookup key = some name := by
  unfold CaseTable.name
  split
  · exact h
  · next hnew =>
    have hne : key ≠ CaseTable.key enum case := by
      rintro rfl
      rw [CaseTable.name?, h] at hnew
      cases hnew
    simpa [List.lookup_cons, beq_false_of_ne hne] using h

theorem keepsLocals_nameCase (enum case : String) (style) :
    KeepsLocals (nameCase enum case style) := by
  intro context state
  exact { (Framed.refl state : Framed id state state) with
    cases := fun _ _ => CaseTable.lookup_name enum case style }

/-- In a closure, using an anonymous parameter can only raise the greatest one. -/
theorem Framed.of_useAnonymous (hclosure : s.surroundings.closureDepth ≠ 0) (context)
    (index : Nat) : Framed id s (((useAnonymous index).run context).run s).2 :=
  { (refl s : Framed id s s) with
    anonymous := fun hs => absurd hs hclosure
    anonymous_le := fun n hn => ⟨max n index, Nat.le_max_left n index, by
      cases s
      cases hn
      rfl⟩ }

/-- A reference looks at its surroundings; only in a closure may it use an anonymous parameter. -/
theorem reference_eq_bind (name : String) (range) :
    ∃ rest : Surroundings → Lower Kotlin.Node,
      Expression.reference name range = Lowering.surroundings >>= rest ∧
        ∀ around,
          (around.closureDepth ≠ 0 ∧
              ∃ index node, rest around = useAnonymous index >>= fun _ => pure node) ∨
            ∃ written : Locals → Kotlin.Node,
              rest around = Lowering.locals >>= fun locals => pure (written locals) := by
  refine ⟨_, rfl, fun around => ?_⟩
  split
  next index depth _ hdepth => exact .inl ⟨by omega, index, _, rfl⟩
  · exact .inr ⟨_, rfl⟩

theorem keepsLocals_reference (name : String) (range) :
    KeepsLocals (Expression.reference name range) := by
  intro context state
  obtain ⟨rest, hreference, hrest⟩ := reference_eq_bind name range
  rw [hreference]
  change Framed id state (((rest state.surroundings).run context).run state).2
  rcases hrest state.surroundings with ⟨hclosure, index, node, heq⟩ | ⟨written, heq⟩
  · rw [heq]
    exact Framed.of_useAnonymous hclosure context index
  · rw [heq]
    exact Framed.refl state

/-! ## All of lowering -/

/-- Lowering treats its context as a stack. -/
def stackDiscipline : Discipline where
  value := Framed id
  statement := Framed List.tail
  value_preorder := inferInstance
  statement_preorder := inferInstance
  statement_of_value _ _ := Framed.mono
  report := keepsLocals_report
  nameCase := keepsLocals_nameCase
  reference := keepsLocals_reference
  declare := keepsOuter_declare
  narrow := keepsOuter_narrow
  declareFresh := keepsOuter_declareFresh
  surrounded_value := keeps_surrounded
  surrounded_statement := keeps_surrounded
  inBlock := keepsLocals_inBlock
  inClosure := keepsLocals_inClosure

/-- Lowering a statement gives back its surroundings and declares locals in the innermost block at
most; lowering a value, kept or not, declares none. Nothing reported or named before is lost. -/
theorem descend_treats_context_as_stack (height : Nat) (node : Node) :
    KeepsOuter ((descend height).statement node) ∧ KeepsLocals ((descend height).value node) ∧
      KeepsLocals ((descend height).kept node) := by
  have hall := descend_follows stackDiscipline height
  exact ⟨hall.statement node, hall.value node, keeps_kept hall node⟩

end SwiftToKotlin.Lowering
