import SwiftToKotlin.Proofs.Kotlin.Delimiters

/-!
# Texts of a fragment

The lines of a fragment are indented by the place where it stands. A text of the fragment has any
indentation; the text that is rendered is one of them. The text of fragments behind each other is
that of the first and that of the next.
-/

namespace SwiftToKotlin.Kotlin

/-- The line without its indentation. -/
def Line.text : Line → List Char
  | blank => []
  | code _ text => text.toList

/-- The lines with any indentation, each behind a line break. -/
inductive Laid : List Line → List Char → Prop
  | nil : Laid [] []
  | cons {line : Line} {lines : List Line} {text : List Char} (blanks : Nat) :
    Laid lines text →
      Laid (line :: lines) ('\n' :: (List.replicate blanks ' ' ++ line.text ++ text))

theorem Laid.of_map_indent (h : Laid (lines.map Line.indent) text) : Laid lines text := by
  induction lines generalizing text with
  | nil => exact h
  | cons line lines ih =>
    have htext : line.indent.text = line.text := by cases line <;> rfl
    cases h with
    | cons blanks h =>
      rw [htext]
      exact .cons blanks (ih h)

theorem Laid.split (h : Laid (lines ++ more) text) :
    ∃ first next, text = first ++ next ∧ Laid lines first ∧ Laid more next := by
  induction lines generalizing text with
  | nil => exact ⟨[], text, rfl, .nil, h⟩
  | cons line lines ih =>
    cases h with
    | cons blanks h =>
      obtain ⟨first, next, rfl, hfirst, hnext⟩ := ih h
      exact ⟨_, next, by simp, .cons blanks hfirst, hnext⟩

/-- The lines as they are rendered are one way to lay them out. -/
theorem exists_laid_renderedLines (width : Nat) (lines) :
    ∃ text, Laid lines text ∧ '\n' :: renderedLines width lines = text ++ ['\n'] := by
  induction lines with
  | nil => exact ⟨[], .nil, rfl⟩
  | cons line lines ih =>
    obtain ⟨text, htext, hrendered⟩ := ih
    have hline : ∃ blanks, (line.render width).toList = List.replicate blanks ' ' ++ line.text := by
      cases line with
      | blank => exact ⟨0, rfl⟩
      | code level text => exact ⟨level * width, by simp [Line.render, Line.text]⟩
    obtain ⟨blanks, hline⟩ := hline
    refine ⟨_, .cons blanks htext, ?_⟩
    have hcons : renderedLines width (line :: lines) =
        (line.render width).toList ++ '\n' :: renderedLines width lines := by
      simp [renderedLines]
    rw [hcons, hrendered, hline]
    simp

namespace Fragment

/-- A text of the fragment, with any indentation of the lines below the first. -/
def LaidOut (fragment : Fragment) (text : List Char) : Prop :=
  ∃ below, Laid fragment.below below ∧ text = fragment.head.toList ++ below

variable {fragment next : Fragment}

theorem LaidOut.eq_of_ofString (h : (ofString string).LaidOut text) : text = string.toList := by
  obtain ⟨below, hbelow, rfl⟩ := h
  cases hbelow
  exact List.append_nil _

theorem laid_continueLines (h : Laid (continueLines next line rest) text) :
    ∃ front tail, text = front ++ tail ∧ Laid (line :: rest) front ∧ next.LaidOut tail := by
  induction rest generalizing line text with
  | nil =>
    have hextend : (line.extend next.head).text = line.text ++ next.head.toList := by
      cases line <;> simp [Line.extend, Line.text]
    cases h with
    | @cons _ _ below blanks h =>
      refine ⟨_, next.head.toList ++ below, ?_, .cons blanks .nil, below, h, rfl⟩
      simp [hextend]
  | cons other rest ih =>
    cases h with
    | cons blanks h =>
      obtain ⟨front, tail, rfl, hfront, htail⟩ := ih h
      exact ⟨_, tail, by simp, .cons blanks hfront, htail⟩

theorem LaidOut.split (h : (first ++ next).LaidOut text) :
    ∃ front tail, text = front ++ tail ∧ first.LaidOut front ∧ next.LaidOut tail := by
  obtain ⟨head, below⟩ := first
  change (Fragment.append _ _).LaidOut text at h
  cases below with
  | nil =>
    obtain ⟨below, hbelow, rfl⟩ := h
    exact ⟨head.toList, next.head.toList ++ below, by simp [Fragment.append],
      ⟨[], .nil, by simp⟩, below, hbelow, rfl⟩
  | cons line rest =>
    obtain ⟨below, hbelow, rfl⟩ := h
    obtain ⟨front, tail, rfl, hfront, htail⟩ := laid_continueLines hbelow
    exact ⟨head.toList ++ front, tail, by simp [Fragment.append], ⟨front, hfront, rfl⟩, htail⟩

theorem LaidOut.of_ofString_append (h : (ofString string ++ next).LaidOut text) :
    ∃ tail, text = string.toList ++ tail ∧ next.LaidOut tail := by
  obtain ⟨front, tail, rfl, hfront, htail⟩ := h.split
  exact ⟨tail, by rw [hfront.eq_of_ofString], htail⟩

theorem LaidOut.of_append_ofString (h : (first ++ ofString string).LaidOut text) :
    ∃ front, text = front ++ string.toList ∧ first.LaidOut front := by
  obtain ⟨front, tail, rfl, hfront, htail⟩ := h.split
  exact ⟨front, by rw [htail.eq_of_ofString], hfront⟩

theorem LaidOut.of_nested {lines : List Line} (h : (nested lines).LaidOut text) :
    Laid lines text := by
  obtain ⟨below, hbelow, rfl⟩ := h
  exact hbelow.of_map_indent

/-- The fragment from the beginning of a line. -/
theorem exists_laidOut_of_lines (h : Laid fragment.lines text) :
    ∃ blanks own, text = '\n' :: (List.replicate blanks ' ' ++ own) ∧ fragment.LaidOut own := by
  cases h with
  | @cons _ _ below blanks h =>
    exact ⟨blanks, fragment.head.toList ++ below, by simp [Line.text], below, h, rfl⟩

/-- The fragment as it is rendered. -/
theorem exists_laidOut_renderedLines (width : Nat) (fragment : Fragment) :
    ∃ text, fragment.LaidOut text ∧ renderedLines width fragment.lines = text ++ ['\n'] := by
  obtain ⟨below, hbelow, hrendered⟩ := exists_laid_renderedLines width fragment.below
  refine ⟨fragment.head.toList ++ below, ⟨below, hbelow, rfl⟩, ?_⟩
  have hcons : renderedLines width fragment.lines =
      fragment.head.toList ++ '\n' :: renderedLines width fragment.below := by
    simp [renderedLines, Fragment.lines, Line.render]
  rw [hcons, hrendered, List.append_assoc]

end Fragment

end SwiftToKotlin.Kotlin
