import SwiftToKotlin.Proofs.Swift.TyReading

/-!
# The reader of types advances

A position of the text is known by the characters from it on. Every type that is read ends at a
later position, and what stands inside of it is read from later positions, so that the recursion
ends whatever the text.
-/

namespace SwiftToKotlin.Swift.TyParser

variable {text : String}

/-- The characters from the position on. -/
def charsFrom (pos : text.Pos) : List Char :=
  (text.sliceFrom pos).copy.toList

theorem exists_charsFrom {pos : text.Pos} (h : cs <:+ charsFrom pos) :
    ∃ later, pos ≤ later ∧ charsFrom later = cs := by
  obtain ⟨taken, htaken⟩ := h
  have hpos : pos.Splits (text.sliceTo pos).copy (String.ofList taken ++ String.ofList cs) := by
    rw [← String.ofList_append, htaken, charsFrom, String.ofList_toList]
    exact pos.splits
  have hlater := hpos.splits_rotateRight
  refine ⟨hpos.rotateRight, (hpos.le_iff_exists_eq_append hlater).2 ⟨_, rfl, rfl⟩, ?_⟩
  rw [charsFrom, hlater.copy_sliceFrom_eq, String.toList_ofList]

theorem later_charsFrom_iff :
    Later cs (charsFrom pos) ↔ ∃ later, pos < later ∧ charsFrom later = cs := by
  constructor
  · intro h
    obtain ⟨later, hle, rfl⟩ := exists_charsFrom h.suffix
    refine ⟨later, String.Pos.lt_of_le_of_ne hle ?_, rfl⟩
    rintro rfl
    exact Nat.lt_irrefl _ h.length_lt
  · rintro ⟨later, hlt, rfl⟩
    obtain ⟨taken, hne, -, heq⟩ := (pos.splits.lt_iff_exists_eq_append later.splits).1 hlt
    have hchars : charsFrom pos = taken.toList ++ charsFrom later := by simp [charsFrom, heq]
    have hlength : taken.toList ≠ [] := by simpa using hne
    exact hchars ▸ ⟨List.suffix_append .., by simp [List.length_pos_iff, hlength]⟩

/-- A reading that succeeds ends at a later position. -/
def Advances (pos : text.Pos) (result : Except TyFault (Ty × List Char)) : Prop :=
  ∀ ty rest, result = .ok (ty, rest) → ∃ later, pos < later ∧ charsFrom later = rest

theorem Alike.advances {pos : text.Pos} (h : Alike (charsFrom pos) good first second) :
    Advances pos first :=
  fun _ _ heq => later_charsFrom_iff.1 (h.result heq).2

end SwiftToKotlin.Swift.TyParser
