import Mathlib.Data.List.Infix
import SwiftToKotlin.Text.Blank
import SwiftToKotlin.Text.Cut

/-!
# Where a text is cut

A cut at the last occurrence of a mark is known by two facts: the parts around the mark make up the
text, and no occurrence begins later. A text falls into the pieces between its marks. Trimming
changes nothing where neither end is blank.
-/

namespace SwiftToKotlin.Text

/-! ## The last occurrence of a mark -/

/-- The mark begins in the text again after its own first character. -/
def Recurs (mark after : List Char) : Prop :=
  mark <:+: mark.tail ++ after

theorem cutLast_eq_none_iff (hmark : mark ≠ []) : cutLast mark text = none ↔ ¬ mark <:+: text := by
  induction text with
  | nil => simp [cutLast, hmark]
  | cons c rest ih =>
    rw [List.infix_cons_iff, cutLast]
    cases hcut : cutLast mark rest with
    | some parts =>
      have hrest : mark <:+: rest := by
        by_contra hnone
        simp [ih.2 hnone] at hcut
      simp [hrest]
    | none =>
      have hrest : ¬ mark <:+: rest := ih.1 hcut
      simp [hrest]

/-- A cut gives back the text and leaves no later occurrence. -/
theorem cutLast_sound (hmark : mark ≠ []) (h : cutLast mark text = some (before, after)) :
    text = before ++ mark ++ after ∧ ¬ Recurs mark after := by
  induction text generalizing before with
  | nil => simp [cutLast] at h
  | cons c rest ih =>
    rw [cutLast] at h
    cases hcut : cutLast mark rest with
    | some parts =>
      simp only [hcut, Option.some.injEq] at h
      obtain ⟨rfl, rfl⟩ := h
      obtain ⟨hrest, hlater⟩ := ih hcut
      exact ⟨by simp [hrest], hlater⟩
    | none =>
      simp only [hcut] at h
      split at h
      · next hprefix =>
        obtain ⟨rest', hrest'⟩ := List.isPrefixOf_iff_prefix.1 hprefix
        obtain ⟨rfl, rfl⟩ := h
        have hdrop : (c :: rest).drop mark.length = rest' := by simp [← hrest']
        have htail : rest = mark.tail ++ rest' := by
          cases mark with
          | nil => exact absurd rfl hmark
          | cons first more => exact (List.cons.inj hrest').2.symm
        rw [hdrop, Recurs, ← htail]
        exact ⟨by simp [hrest'], (cutLast_eq_none_iff hmark).1 hcut⟩
      · cases h

/-- Where no occurrence begins later, the cut is at this one. -/
theorem cutLast_complete (hmark : mark ≠ []) (hlater : ¬ Recurs mark after) :
    cutLast mark (before ++ mark ++ after) = some (before, after) := by
  induction before with
  | nil =>
    obtain ⟨first, more, rfl⟩ := List.exists_cons_of_ne_nil hmark
    have hnone : cutLast (first :: more) (more ++ after) = none :=
      (cutLast_eq_none_iff hmark).2 hlater
    simp [cutLast, hnone]
  | cons c before ih =>
    rw [List.append_assoc] at ih
    simp [cutLast, ih]

theorem cutLast_eq_some_iff (hmark : mark ≠ []) :
    cutLast mark text = some (before, after) ↔
      text = before ++ mark ++ after ∧ ¬ Recurs mark after := by
  constructor
  · exact cutLast_sound hmark
  · rintro ⟨rfl, hlater⟩
    exact cutLast_complete hmark hlater

theorem recurs_singleton_iff : Recurs [c] after ↔ c ∈ after := by
  simp [Recurs, List.singleton_infix_iff]

/-- A cut at a single character is after the last one of its kind. -/
theorem cutLast_singleton_iff :
    cutLast [c] text = some (before, after) ↔ text = before ++ c :: after ∧ c ∉ after := by
  rw [cutLast_eq_some_iff (List.cons_ne_nil c []), recurs_singleton_iff]
  simp

theorem cutLast_append_cons (before) (hafter : c ∉ after) :
    cutLast [c] (before ++ c :: after) = some (before, after) :=
  cutLast_singleton_iff.2 ⟨rfl, hafter⟩

theorem cutLast_singleton_eq_none_iff : cutLast [c] text = none ↔ c ∉ text := by
  rw [cutLast_eq_none_iff (List.cons_ne_nil c []), List.singleton_infix_iff]

/-! ## Pieces -/

theorem pieces_of_not_mem (h : c ∉ text) : pieces c text = [text] := by
  induction text with
  | nil => rfl
  | cons d rest ih =>
    rw [List.mem_cons, not_or] at h
    rw [pieces, if_neg (Ne.symm h.1), ih h.2]

theorem pieces_ne_nil (c : Char) (text) : pieces c text ≠ [] := by
  cases text with
  | nil => simp [pieces]
  | cons d rest =>
    rw [pieces]
    split
    · exact List.cons_ne_nil _ _
    · split <;> exact List.cons_ne_nil _ _

/-- At a mark the pieces before it end and those after it begin. -/
theorem pieces_append (before after) :
    pieces c (before ++ c :: after) = pieces c before ++ pieces c after := by
  induction before with
  | nil => simp [pieces]
  | cons d rest ih =>
    by_cases hd : d = c
    · simp [pieces, hd, ih]
    · obtain ⟨first, more, hrest⟩ := List.exists_cons_of_ne_nil (pieces_ne_nil c rest)
      simp [pieces, hd, ih, hrest]

/-- What stands before the first mark is the first piece. -/
theorem pieces_append_cons (after) (h : c ∉ before) :
    pieces c (before ++ c :: after) = before :: pieces c after := by
  rw [pieces_append, pieces_of_not_mem h, List.singleton_append]

/-- Pieces with a mark after each fall apart again, with nothing after the last mark. -/
theorem pieces_flatMap (h : ∀ part ∈ parts, c ∉ part) :
    pieces c (parts.flatMap (· ++ [c])) = parts ++ [[]] := by
  induction parts with
  | nil => rfl
  | cons part parts ih =>
    obtain ⟨hpart, hparts⟩ := List.forall_mem_cons.1 h
    rw [List.flatMap_cons, List.append_assoc, List.singleton_append, pieces_append_cons _ hpart,
      ih hparts, List.cons_append]

/-! ## Trimming -/

theorem trimEnd_append (first next) :
    trimEnd (first ++ next) =
      if trimEnd next = [] then trimEnd first else first ++ trimEnd next := by
  rw [trimEnd, List.reverse_append, List.dropWhile_append]
  simp only [trimEnd, List.isEmpty_iff, List.reverse_eq_nil_iff]
  split_ifs
  · rfl
  · rw [List.reverse_append, List.reverse_reverse]

theorem mem_of_mem_trimEnd (h : c ∈ trimEnd text) : c ∈ text :=
  List.mem_reverse.1 ((List.dropWhile_sublist _).subset (List.mem_reverse.1 h))

theorem trim_eq_self (hfirst : ∀ c ∈ text.head?, isBlank c = false)
    (hlast : ∀ c ∈ text.getLast?, isBlank c = false) : trim text = text := by
  have hkeep (cs : List Char) (h : ∀ c ∈ cs.head?, isBlank c = false) :
      cs.dropWhile isBlank = cs := by
    cases cs with
    | nil => rfl
    | cons c rest => simp [h c rfl]
  rw [trim, trimStart, hkeep text hfirst, trimEnd, hkeep text.reverse (by simpa using hlast),
    List.reverse_reverse]

end SwiftToKotlin.Text
