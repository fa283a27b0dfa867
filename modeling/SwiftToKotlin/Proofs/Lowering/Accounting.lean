import SwiftToKotlin.Proofs.Kotlin.Comments
import SwiftToKotlin.Proofs.Lowering.Actions
import SwiftToKotlin.Proofs.Swift.Placeholders

/-!
# Accounting for comments

A comment in the output stands for something that was refused or could not be read. An action
accounts for its comments if each of them is one that it was handed, belongs to a refusal that it
reports, or stands for a placeholder of the source, and if none that was handed or refused is lost.
-/

namespace SwiftToKotlin

open Kotlin (Note)

/-- The comment for a refused construct. A type that is refused is replaced and leaves none. -/
def Diagnostic.refusal? : Diagnostic → Option Note
  | ⟨.noEquivalent (.ty _ _), _⟩ => none
  | ⟨.noEquivalent obstacle, range⟩ => some (obstacle.message, range)
  | _ => none

/-- The comment for a node that could not be read. -/
def Diagnostic.placeholder? : Diagnostic → Option Note
  | ⟨.malformed kind flaw, range⟩ => some (s!"invalid `{kind}`: {flaw.message}", range)
  | ⟨.unrecognized kind, range⟩ => some (s!"unrecognized construct: {kind}", range)
  | _ => none

namespace Lowering

open Swift (Node)
open Kotlin (notes)

variable {α β : Type}

/-- The comments that the diagnostics call for. -/
def refusals (diagnostics : List Diagnostic) : List Note :=
  diagnostics.filterMap Diagnostic.refusal?

/-! ## Quiet actions -/

/-- Nothing was refused in between. -/
def Quiet (s t : State) : Prop :=
  refusals t.diagnostics = refusals s.diagnostics

instance : IsPreorder State Quiet where
  refl _ := rfl
  trans _ _ _ h h' := h'.trans h

theorem quiet_report (h : Diagnostic.refusal? ⟨cause, range⟩ = none) :
    Keeps Quiet (report cause range) := by
  intro context state
  change refusals (state.diagnostics ++ [⟨cause, range⟩]) = _
  simp [refusals, h]

/-! ## Actions that make nodes -/

/-- Given the nodes made so far, the result of the action has their comments and those of the
refusals on the way, and no others but those of the placeholders that have been told. -/
def Accounts (told : List Diagnostic) (made : List Kotlin.Node) (action : Lower α)
    (parts : α → List Kotlin.Node) : Prop :=
  ∀ context state, ∃ news,
    refusals ((action.run context).run state).2.diagnostics = refusals state.diagnostics ++ news ∧
    notes made ++ news ⊆ notes (parts ((action.run context).run state).1) ∧
    notes (parts ((action.run context).run state).1) ⊆
      notes made ++ news ++ told.filterMap Diagnostic.placeholder?

namespace Accounts

variable {parts : α → List Kotlin.Node}

/-- A quiet action may add comments for placeholders that have been told. -/
theorem of_quiet (h : Keeps Quiet action)
    (hparts : ∀ context state,
      notes made ⊆ notes (parts ((action.run context).run state).1) ∧
        notes (parts ((action.run context).run state).1) ⊆
          notes made ++ told.filterMap Diagnostic.placeholder?) :
    Accounts told made action parts := by
  intro context state
  refine ⟨[], (h context state).trans (List.append_nil _).symm, ?_⟩
  rw [List.append_nil]
  exact hparts context state

theorem refuse {obstacle : Obstacle}
    (h : Diagnostic.refusal? ⟨.noEquivalent obstacle, range⟩ = some (obstacle.message, range)) :
    Accounts told [] (refuse obstacle range) fun node => [node] := by
  intro context state
  refine ⟨[(obstacle.message, range)], ?_, ?_, ?_⟩
  · change refusals (state.diagnostics ++ [⟨.noEquivalent obstacle, range⟩]) = _
    simp [refusals, h]
  · change _ ⊆ notes [Kotlin.Node.comment obstacle.message range]
    simp
  · change notes [Kotlin.Node.comment obstacle.message range] ⊆ _
    simp

/-- The nodes that a first action makes are handed on to the second. -/
theorem bind {f : α → Lower β} {P : α → Prop} (h : Accounts told [] action parts)
    (hknown : ∀ context state, P ((action.run context).run state).1)
    (hf : ∀ a, P a → Accounts told (made ++ parts a) (f a) more) :
    Accounts told made (action >>= f) more := by
  intro context state
  obtain ⟨news, hnews, hkept, honly⟩ := h context state
  obtain ⟨later, hlater, hkept', honly'⟩ :=
    hf _ (hknown context state) context ((action.run context).run state).2
  refine ⟨news ++ later, ?_, ?_, ?_⟩
  · rw [← List.append_assoc, ← hnews]
    exact hlater
  · simp only [Kotlin.notes_append, List.append_subset] at hkept' ⊢
    obtain ⟨⟨hmade, hparts⟩, hlate⟩ := hkept'
    exact ⟨hmade, fun _ hnote => hparts (hkept (by simpa using hnote)), hlate⟩
  · intro note hnote
    have hsource := honly' hnote
    simp only [Kotlin.notes_append, List.mem_append] at hsource ⊢
    rcases hsource with ((hmade | hpart) | hlate) | htold
    · exact .inl (.inl hmade)
    · rcases List.mem_append.1 (honly hpart) with hnew | htold
      · exact .inl (.inr (.inl (by simpa using hnew)))
      · exact .inr htold
    · exact .inl (.inr (.inr hlate))
    · exact .inr htold

/-- Only the comments of what is handed to an action count. -/
theorem handing (h : Accounts told made action parts) (hkept : notes others ⊆ notes made)
    (honly : notes made ⊆ notes others ++ told.filterMap Diagnostic.placeholder?) :
    Accounts told others action parts := by
  intro context state
  obtain ⟨news, hnews, hparts, hsource⟩ := h context state
  refine ⟨news, hnews, ?_, fun note hnote => ?_⟩
  · rw [List.append_subset] at hparts ⊢
    exact ⟨List.Subset.trans hkept hparts.1, hparts.2⟩
  · have hmade := hsource hnote
    simp only [List.mem_append] at hmade ⊢
    rcases hmade with (hmade | hnew) | htold
    · exact (List.mem_append.1 (honly hmade)).imp_left .inl
    · exact .inl (.inr hnew)
    · exact .inr htold

/-! ## Surroundings and blocks -/

theorem surrounded (h : Accounts told made action parts) :
    Accounts told made (surrounded change action) parts :=
  fun context state => h context (state.amid change)

theorem inBlock (h : Accounts told made action parts) : Accounts told made (inBlock action) parts :=
  fun context state => h context state.opened

theorem inClosure (h : Accounts told made action parts) :
    Accounts told made (inClosure action) fun result => parts result.1 :=
  fun context state => h context state.enclosed

end Accounts

end Lowering

end SwiftToKotlin
