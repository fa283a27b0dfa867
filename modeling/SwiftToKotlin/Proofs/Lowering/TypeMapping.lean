import SwiftToKotlin.Lowering.TypeMap
import SwiftToKotlin.Proofs.Kotlin.Grammar.Type

/-!
# Which types have a Kotlin type

A Swift type has one unless a tuple of one or of more than three elements stands somewhere in it.
In the Kotlin type no nullable type is marked as nullable once more. Types are written in different
ways unless they are the same.
-/

namespace SwiftToKotlin

/-- The types that a type is made of. -/
@[simp] def Swift.Ty.parts : Ty → List Ty
  | named _ generics => generics
  | optional wrapped => [wrapped]
  | implicitlyUnwrapped wrapped => [wrapped]
  | array element => [element]
  | dictionary key value => [key, value]
  | tuple elements => elements
  | function params result _ => params ++ [result]

/-- The type stands somewhere in another one. -/
inductive Swift.Ty.OccursIn (ty : Ty) : Ty → Prop
  | self : OccursIn ty ty
  | part (hpart : next ∈ whole.parts) (h : OccursIn ty next) : OccursIn ty whole

mutual

/-- No nullable type stands right under a question mark. -/
def Kotlin.Ty.IsCollapsed : Ty → Prop
  | .named _ args => AreCollapsed args
  | .nullable inner => (∀ ty, inner ≠ .nullable ty) ∧ inner.IsCollapsed
  | .function params result => AreCollapsed params ∧ result.IsCollapsed

def Kotlin.Ty.AreCollapsed : List Ty → Prop
  | [] => True
  | ty :: rest => ty.IsCollapsed ∧ AreCollapsed rest

end

namespace Lowering

open Kotlin.Ty (IsCollapsed AreCollapsed)

/-- A tuple without a Kotlin type stands somewhere in the type. -/
def HasUnmappedTuple (ty : Swift.Ty) : Prop :=
  ∃ elements, (Swift.Ty.tuple elements).OccursIn ty ∧ (elements.length = 1 ∨ 4 ≤ elements.length)

theorem hasUnmappedTuple_iff (ty : Swift.Ty) : HasUnmappedTuple ty ↔
    (∃ elements, ty = .tuple elements ∧ (elements.length = 1 ∨ 4 ≤ elements.length)) ∨
      ∃ part ∈ ty.parts, HasUnmappedTuple part := by
  constructor
  · rintro ⟨elements, hin, hsize⟩
    cases hin with
    | self => exact .inl ⟨elements, rfl, hsize⟩
    | part hpart hin => exact .inr ⟨_, hpart, elements, hin, hsize⟩
  · rintro (⟨elements, rfl, hsize⟩ | ⟨part, hpart, elements, hin, hsize⟩)
    · exact ⟨elements, .self, hsize⟩
    · exact ⟨elements, .part hpart hin, hsize⟩

/-- The result is an error exactly if something is bad, and otherwise as it should be. -/
def Fares (bad : Prop) (P : α → Prop) : Except UnmappedTuple α → Prop
  | .error _ => bad
  | .ok a => ¬ bad ∧ P a

theorem Fares.congr (h : Fares bad P result) (hbad : bad ↔ bad') : Fares bad' P result := by
  rwa [← propext hbad]

theorem Fares.bind {f : α → Except UnmappedTuple β} (h : Fares bad P result)
    (hf : ∀ a, P a → Fares bad' Q (f a)) : Fares (bad ∨ bad') Q (result >>= f) := by
  cases result with
  | error e => exact .inl h
  | ok a => exact (hf a h.2).congr (by simp [h.1])

theorem Fares.map {f : α → β} (h : Fares bad P result) (hf : ∀ a, P a → Q (f a)) :
    Fares bad Q (result >>= fun a => pure (f a)) := by
  cases result with
  | error e => exact h
  | ok a => exact ⟨h.1, hf a h.2⟩

theorem isCollapsed_orNull (h : IsCollapsed ty) : IsCollapsed ty.orNull := by
  cases ty with
  | nullable inner => exact h
  | named name args => exact ⟨fun _ => by simp, h⟩
  | function params result => exact ⟨fun _ => by simp, h⟩

/-- A type that is no tuple fares like its parts. -/
theorem Fares.whole (h : Fares bad P result) (hty : ∀ elements, ty ≠ .tuple elements)
    (hbad : bad ↔ ∃ part ∈ ty.parts, HasUnmappedTuple part) :
    Fares (HasUnmappedTuple ty) P result := by
  rw [hasUnmappedTuple_iff]
  exact h.congr (by simp [hty, hbad])

mutual

theorem kotlinType_fares :
    (ty : Swift.Ty) → Fares (HasUnmappedTuple ty) IsCollapsed (kotlinType ty)
  | .named _ generics => .whole ((kotlinTypes_fares generics).map fun _ h => h) (by simp) (by simp)
  | .optional wrapped =>
    .whole ((kotlinType_fares wrapped).map fun _ => isCollapsed_orNull) (by simp) (by simp)
  | .implicitlyUnwrapped wrapped =>
    .whole ((kotlinType_fares wrapped).map fun _ => isCollapsed_orNull) (by simp) (by simp)
  | .array element =>
    .whole ((kotlinType_fares element).map fun _ h => ⟨h, trivial⟩) (by simp) (by simp)
  | .dictionary key value =>
    .whole ((kotlinType_fares key).bind fun _ hkey => (kotlinType_fares value).map fun _ hvalue =>
      ⟨hkey, hvalue, trivial⟩) (by simp) (by simp)
  | .tuple elements => by
    have hmade (name : String) : Fares (∃ ty ∈ elements, HasUnmappedTuple ty) IsCollapsed
        (kotlinTypes elements >>= fun args => pure (.named name args)) :=
      (kotlinTypes_fares elements).map fun _ h => h
    rw [hasUnmappedTuple_iff]
    rcases elements with _ | ⟨_, _ | ⟨_, _ | ⟨_, _ | ⟨_, rest⟩⟩⟩⟩
    · exact ⟨by simp, trivial⟩
    · exact .inl ⟨_, rfl, .inl rfl⟩
    · exact (hmade "Pair").congr (by simp)
    · exact (hmade "Triple").congr (by simp)
    · exact .inl ⟨_, rfl, .inr (by simp)⟩
  | .function params result _ =>
    .whole ((kotlinTypes_fares params).bind fun _ hparams =>
      (kotlinType_fares result).map fun _ hresult => ⟨hparams, hresult⟩) (by simp)
      (by simp [or_and_right, exists_or])

theorem kotlinTypes_fares : (types : List Swift.Ty) →
    Fares (∃ ty ∈ types, HasUnmappedTuple ty) AreCollapsed (kotlinTypes types)
  | [] => ⟨by simp, trivial⟩
  | ty :: rest => Fares.congr ((kotlinType_fares ty).bind fun _ hty =>
      (kotlinTypes_fares rest).map fun _ hrest => ⟨hty, hrest⟩) (by simp)

end

/-- The Kotlin type of a type is missing exactly if a tuple stands in it that has none, and
otherwise has no question mark under another one. Types whose names are dotted names are told apart
by how they are written. -/
theorem kotlinType_fails_for_tuples_only :
    (∀ ty, ((∃ tuple, kotlinType ty = .error tuple) ↔ ∃ elements,
        (Swift.Ty.tuple elements).OccursIn ty ∧ (elements.length = 1 ∨ 4 ≤ elements.length)) ∧
      ∀ made, kotlinType ty = .ok made → made.IsCollapsed) ∧
    ∀ ty other, Kotlin.Grammar.IsReadable ty → Kotlin.Grammar.IsReadable other →
      ty.display = other.display → ty = other := by
  refine ⟨fun ty => ?_, fun ty other hty hother hsame => ?_⟩
  · have h := kotlinType_fares ty
    cases hresult : kotlinType ty with
    | error tuple =>
      rw [hresult] at h
      exact ⟨⟨fun _ => h, fun _ => ⟨tuple, rfl⟩⟩, fun made hmade => by cases hmade⟩
    | ok made =>
      rw [hresult] at h
      refine ⟨⟨fun ⟨_, hno⟩ => (by cases hno), fun hbad => absurd hbad h.1⟩, ?_⟩
      intro _ hmade
      cases hmade
      exact h.2
  · have hends : Kotlin.Grammar.EndsType [] := ⟨by simp [Kotlin.Grammar.EndsName], by simp⟩
    have hread := (Kotlin.Grammar.readsBack ty hty _ [] (Nat.lt_succ_self _)).1 hends
    have hread' := (Kotlin.Grammar.readsBack other hother _ [] (Nat.lt_succ_self _)).1 hends
    rw [hsame, hread'] at hread
    cases hread
    rfl

end Lowering

end SwiftToKotlin
