import SwiftToKotlin.Kotlin.Source
import SwiftToKotlin.Proofs.Text.Cutting

/-!
# The width of a level

The text of a file consists of rows. A row has a level and a content, and neither of them depends on
the width of a level, which says only how many blanks the level of a row puts before its content.
A line whose text has line breaks in it makes several rows, all but the first of them at level zero;
at the end of a file blank rows are left out.
-/

namespace SwiftToKotlin.Kotlin

/-! ## Rows -/

/-- A line of the text: its level, and what stands behind the indentation. -/
structure Row where
  level : Nat
  content : List Char
  unbroken : '\n' ∉ content

namespace Row

def indented (width : Nat) (row : Row) : List Char :=
  List.replicate (width * row.level) ' ' ++ row.content

/-- The text of rows, with a line break after each. -/
def text (width : Nat) (rows : List Row) : List Char :=
  rows.flatMap fun row => row.indented width ++ ['\n']

@[simp] theorem text_nil (width : Nat) : text width [] = [] := rfl

@[simp] theorem text_cons (width : Nat) (row : Row) (rows) :
    text width (row :: rows) = row.indented width ++ '\n' :: text width rows := by
  simp [text]

@[simp] theorem text_append (width : Nat) (first next : List Row) :
    text width (first ++ next) = text width first ++ text width next :=
  List.flatMap_append

/-- The lines of a text without the blanks before them. -/
def unindented (text : List Char) : List (List Char) :=
  (Text.pieces '\n' text).map (List.dropWhile (· == ' '))

theorem unbroken_indented (width : Nat) (row : Row) : '\n' ∉ row.indented width := by
  simp [indented, row.unbroken]

theorem pieces_text (width : Nat) (rows) :
    Text.pieces '\n' (text width rows) = rows.map (indented width) ++ [[]] := by
  rw [← Text.pieces_flatMap, List.flatMap_map, text]
  simp [unbroken_indented]

theorem unindented_text (width : Nat) (rows) :
    unindented (text width rows) =
      rows.map (fun row => row.content.dropWhile (· == ' ')) ++ [[]] := by
  have hdrop (row : Row) : (row.indented width).dropWhile (· == ' ') =
      row.content.dropWhile (· == ' ') := by
    rw [indented, List.dropWhile_append_of_pos]
    simp
  rw [unindented, pieces_text, List.map_append, List.map_map]
  exact congrArg (· ++ [[]]) (List.map_congr_left fun row _ => hdrop row)

/-- The width zero shows the content of a row, and the width one shows its level. -/
theorem eq_of_indented_eq {other : Row} (hcontent : row.indented 0 = other.indented 0)
    (hlevel : row.indented 1 = other.indented 1) : row = other := by
  obtain ⟨level, content, unbroken⟩ := row
  obtain ⟨otherLevel, otherContent, otherUnbroken⟩ := other
  simp only [indented, Nat.zero_mul, List.replicate_zero, List.nil_append] at hcontent
  subst hcontent
  have hlength := congrArg List.length hlevel
  simp only [indented, List.length_append, List.length_replicate] at hlength
  obtain rfl : level = otherLevel := by omega
  rfl

theorem eq_of_text_eq (h : ∀ width, text width rows = text width others) : rows = others := by
  have hindented (width : Nat) : rows.map (indented width) = others.map (indented width) := by
    have hpieces := congrArg (Text.pieces '\n') (h width)
    rw [pieces_text, pieces_text] at hpieces
    exact List.append_cancel_right hpieces
  have hlength : rows.length = others.length := by
    simpa using congrArg List.length (hindented 0)
  refine List.ext_getElem hlength fun i hi hother => ?_
  have hrow (width : Nat) : rows[i].indented width = others[i].indented width := by
    have heq := congrArg (·[i]?) (hindented width)
    simpa [hi, hother] using heq
  exact eq_of_indented_eq (hrow 0) (hrow 1)

end Row

/-! ## The rows of lines -/

def Line.level : Line → Nat
  | blank => 0
  | code level _ => level

/-- What follows a line break in a text stands in a row of its own at level zero. -/
theorem exists_rows_of_text (text) :
    ∃ content rest, '\n' ∉ content ∧
      ∀ width, text ++ ['\n'] = content ++ '\n' :: Row.text width rest := by
  induction text with
  | nil => exact ⟨[], [], List.not_mem_nil, fun _ => rfl⟩
  | cons c text ih =>
    obtain ⟨content, rest, hcontent, htext⟩ := ih
    by_cases hc : c = '\n'
    · refine ⟨[], ⟨0, content, hcontent⟩ :: rest, List.not_mem_nil, fun width => ?_⟩
      simp [hc, htext width, Row.indented]
    · refine ⟨c :: content, rest, ?_, fun width => ?_⟩
      · simpa [hcontent] using Ne.symm hc
      · rw [List.cons_append, htext width, List.cons_append]

theorem Line.exists_rows (line : Line) :
    ∃ row rest, row.level = line.level ∧
      ∀ width, (line.render width).toList ++ ['\n'] = Row.text width (row :: rest) := by
  cases line with
  | blank => exact ⟨⟨0, [], List.not_mem_nil⟩, [], rfl, fun width => by simp [render, Row.indented]⟩
  | code level text =>
    obtain ⟨content, rest, hcontent, htext⟩ := exists_rows_of_text text.toList
    refine ⟨⟨level, content, hcontent⟩, rest, rfl, fun width => ?_⟩
    simp [render, Row.indented, htext width, Nat.mul_comm]

theorem exists_rows (lines : List Line) :
    ∃ rows : List Row, rows.head?.map Row.level = lines.head?.map Line.level ∧
      ∀ width, (String.join (lines.map fun line => line.render width ++ "\n")).toList =
        Row.text width rows := by
  induction lines with
  | nil => exact ⟨[], rfl, fun _ => rfl⟩
  | cons line lines ih =>
    obtain ⟨row, first, hlevel, hfirst⟩ := line.exists_rows
    obtain ⟨rest, -, hrest⟩ := ih
    refine ⟨row :: first ++ rest, by simp [hlevel], fun width => ?_⟩
    rw [Row.text_append, ← hfirst width, ← hrest width]
    simp

/-! ## The end of the text -/

namespace Row

/-- A row at the end of a text loses the blanks at its end, and goes if nothing else is in it. -/
theorem trimEnd_text_concat (width : Nat) (rows) (last : Row) :
    Text.trimEnd (text width (rows ++ [last])) =
      if Text.trimEnd last.content = [] then Text.trimEnd (text width rows)
      else text width rows ++ (List.replicate (width * last.level) ' ' ++
        Text.trimEnd last.content) := by
  have hindentation : Text.trimEnd (List.replicate (width * last.level) ' ') = [] := by
    simp [Text.trimEnd, Text.isBlank]
  have hrow : Text.trimEnd (text width [last]) =
      if Text.trimEnd last.content = [] then []
      else List.replicate (width * last.level) ' ' ++ Text.trimEnd last.content := by
    rw [text_cons, text_nil, Text.trimEnd_append, if_pos (by decide), indented, Text.trimEnd_append,
      hindentation]
  rw [text_append, Text.trimEnd_append, hrow]
  by_cases hlast : Text.trimEnd last.content = []
  · simp [hlast]
  · simp [hlast]

/-- Without the blanks at the end of their text, rows are other rows for all widths alike. -/
theorem exists_trimmed (rows) (h : ∀ row ∈ rows.head?, row.level = 0) :
    ∃ trimmed : List Row, trimmed.head?.map Row.level = some 0 ∧
      ∀ width, Text.trimEnd (text width rows) ++ ['\n'] = text width trimmed := by
  induction rows using List.reverseRecOn with
  | nil => exact ⟨[⟨0, [], List.not_mem_nil⟩], rfl, fun width => by simp [Text.trimEnd, indented]⟩
  | append_singleton rows last ih =>
    by_cases hlast : Text.trimEnd last.content = []
    · obtain ⟨trimmed, hlevel, htrimmed⟩ := ih fun row hrow => h row (by
        rw [List.head?_append, Option.mem_def.1 hrow]
        rfl)
      refine ⟨trimmed, hlevel, fun width => ?_⟩
      rw [trimEnd_text_concat, if_pos hlast, htrimmed]
    · have hunbroken : '\n' ∉ Text.trimEnd last.content := fun hmem =>
        last.unbroken (Text.mem_of_mem_trimEnd hmem)
      refine ⟨rows ++ [⟨last.level, Text.trimEnd last.content, hunbroken⟩], ?_, fun width => ?_⟩
      · cases rows with
        | nil => simpa using h
        | cons first rows => simpa using h
      · rw [trimEnd_text_concat, if_neg hlast]
        simp [indented]

end Row

/-! ## The lines of a tree -/

theorem level_of_head?_spaced (items) : ∀ line ∈ (spaced items).head?, line.level = 0 := by
  rcases items with _ | ⟨item, _ | ⟨next, rest⟩⟩
  · simp [spaced]
  · simp [spaced, Fragment.lines, Line.level]
  · simp [spaced, Fragment.lines, Line.level]

theorem Node.level_of_head?_lines (node : Node) : ∀ line ∈ node.lines.head?, line.level = 0 := by
  have hfragment (fragment : Fragment) : ∀ line ∈ fragment.lines.head?, line.level = 0 := by
    simp [Fragment.lines, Line.level]
  rw [Node.lines]
  split
  · exact level_of_head?_spaced _
  · exact hfragment _

end SwiftToKotlin.Kotlin
