import Mathlib.Data.List.Forall2
import SwiftToKotlin.Proofs.Text.Cutting
import SwiftToKotlin.Tree

/-!
# The lines of a drawing

A drawing is written line by line, and a limit is applied to each line where it is written. So a
drawing within a limit is the unlimited one with its long lines cut, as long as no label has a line
end in it.
-/

namespace SwiftToKotlin.Tree

/-! ## Branches -/

/-- Branches are none, or others with one before them: an absent one, or one with branches of its
own. -/
@[elab_as_elim]
theorem branches_induction {motive : List (Option Tree) → Prop} (nil : motive [])
    (absent : ∀ rest, motive rest → motive (none :: rest))
    (present : ∀ label subtrees rest, motive subtrees → motive rest →
      motive (some ⟨label, subtrees⟩ :: rest)) : ∀ branches, motive branches
  | [] => nil
  | none :: rest => absent rest (branches_induction nil absent present rest)
  | some ⟨label, subtrees⟩ :: rest =>
    present label subtrees rest (branches_induction nil absent present subtrees)
      (branches_induction nil absent present rest)

/-- The labels of branches, from top to bottom. -/
def branchLabels : List (Option Tree) → List String
  | [] => []
  | none :: rest => branchLabels rest
  | some ⟨label, subtrees⟩ :: rest => label :: (branchLabels subtrees ++ branchLabels rest)

def labels (tree : Tree) : List String :=
  tree.label :: branchLabels tree.subtrees

/-- No label has a line end in it. -/
def LabelsFitLines (tree : Tree) : Prop :=
  ∀ label ∈ tree.labels, '\n' ∉ label.toList

/-! ## What is written line by line -/

/-- What stands before a label that has the branches `rest` after it. -/
def hook (rest : List (Option Tree)) : List Char :=
  if rest.all Option.isNone then "└─ ".toList else "├─ ".toList

/-- What the lines below such a label have in their margin. -/
def gap (rest : List (Option Tree)) : List Char :=
  if rest.all Option.isNone then "    ".toList else "│   ".toList

def branchLines (margin : List Char) : List (Option Tree) → List (List Char)
  | [] => []
  | none :: rest => branchLines margin rest
  | some ⟨label, subtrees⟩ :: rest =>
    (margin ++ hook rest ++ label.toList) ::
      (branchLines (margin ++ gap rest) subtrees ++ branchLines margin rest)

/-- The unlimited lines of a drawing. -/
def lines (tree : Tree) : List (List Char) :=
  tree.label.toList :: branchLines [' '] tree.subtrees

def cut (limit : Option Nat) (line : List Char) : List Char :=
  match limit with
  | some limit => if line.length > limit then line.take (limit - 1) ++ ['…'] else line
  | none => line

theorem toList_line (limit) (text : String) :
    (line limit text).toList = cut limit text.toList ++ ['\n'] := by
  cases limit with
  | none => simp [line, cut]
  | some limit =>
    rw [line, cut, String.length_toList]
    by_cases h : text.length > limit <;> simp [h]

theorem toList_drawBranches (limit) (margin : String) (branches) :
    (drawBranches limit margin branches).toList =
      (branchLines margin.toList branches).flatMap (cut limit · ++ ['\n']) := by
  induction branches using branches_induction generalizing margin with
  | nil => simp [drawBranches, branchLines]
  | absent rest ih => simpa [drawBranches, branchLines] using ih margin
  | present label subtrees rest ihsubtrees ihrest =>
    by_cases hlast : rest.all Option.isNone
    · simp [drawBranches, branchLines, hook, gap, hlast, toList_line, ihsubtrees, ihrest]
    · simp [drawBranches, branchLines, hook, gap, hlast, toList_line, ihsubtrees, ihrest]

theorem toList_draw (limit) (tree : Tree) :
    (tree.draw limit).toList = tree.lines.flatMap (cut limit · ++ ['\n']) := by
  simp [draw, lines, toList_line, toList_drawBranches]

/-! ## The lines of the text -/

/-- The lines of a text. A line end at the end of the text begins no further line. -/
def linesOf (text : String) : List (List Char) :=
  let pieces := Text.pieces '\n' text.toList
  if pieces.getLast? = some [] then pieces.dropLast else pieces

theorem newline_not_mem_branchLines (hmargin : '\n' ∉ margin)
    (hlabels : ∀ label ∈ branchLabels branches, '\n' ∉ label.toList) :
    ∀ line ∈ branchLines margin branches, '\n' ∉ line := by
  induction branches using branches_induction generalizing margin with
  | nil => simp [branchLines]
  | absent rest ih =>
    rw [branchLabels] at hlabels
    simpa only [branchLines] using ih hmargin hlabels
  | present label subtrees rest ihsubtrees ihrest =>
    simp only [branchLabels, List.forall_mem_cons, List.forall_mem_append] at hlabels
    have hhook : '\n' ∉ hook rest := by unfold hook; split <;> decide
    have hgap : '\n' ∉ gap rest := by unfold gap; split <;> decide
    have hbelow : '\n' ∉ margin ++ gap rest := by simp [hmargin, hgap]
    rw [branchLines, List.forall_mem_cons, List.forall_mem_append]
    exact ⟨by simp [hmargin, hhook, hlabels.1], ihsubtrees hbelow hlabels.2.1,
      ihrest hmargin hlabels.2.2⟩

theorem newline_not_mem_lines {tree : Tree} (h : tree.LabelsFitLines) :
    ∀ line ∈ tree.lines, '\n' ∉ line := by
  obtain ⟨hlabel, hbelow⟩ := List.forall_mem_cons.1 h
  exact List.forall_mem_cons.2 ⟨hlabel, newline_not_mem_branchLines (by decide) hbelow⟩

theorem newline_not_mem_cut (limit) {line : List Char} (h : '\n' ∉ line) :
    '\n' ∉ cut limit line := by
  cases limit with
  | none => exact h
  | some limit =>
    rw [cut]
    split
    · simpa using fun hmem => h (List.mem_of_mem_take hmem)
    · exact h

/-- The text of a drawing has the lines that were written, and no others. -/
theorem linesOf_draw (limit) {tree : Tree} (h : tree.LabelsFitLines) :
    linesOf (tree.draw limit) = tree.lines.map (cut limit) := by
  have hcut : ∀ line ∈ tree.lines.map (cut limit), '\n' ∉ line := by
    simp only [List.forall_mem_map]
    exact fun line hline => newline_not_mem_cut limit (newline_not_mem_lines h line hline)
  have htext : (tree.draw limit).toList = (tree.lines.map (cut limit)).flatMap (· ++ ['\n']) := by
    rw [toList_draw, List.flatMap_map]
  rw [linesOf, htext, Text.pieces_flatMap hcut, if_pos List.getLast?_concat, List.dropLast_concat]

theorem linesOf_render {tree : Tree} (h : tree.LabelsFitLines) : linesOf tree.render = tree.lines :=
  (linesOf_draw none h).trans (List.map_id' tree.lines)

/-! ## Lines within a limit -/

/-- A line that is written within a limit: the whole line if it is short enough, and else as much of
it as leaves room for an ellipsis. -/
def Shortens (limit : Nat) (whole written : List Char) : Prop :=
  (whole.length ≤ limit → written = whole) ∧
    (limit < whole.length → written = whole.take (limit - 1) ++ ['…'])

variable {limit : Nat}

theorem shortens_cut (limit : Nat) (line) : Shortens limit line (cut (some limit) line) := by
  refine ⟨fun h => ?_, fun h => ?_⟩
  · rw [cut, if_neg (by omega)]
  · rw [cut, if_pos h]

/-- There is room for the ellipsis. -/
theorem Shortens.length_le (hlimit : 1 ≤ limit) (h : Shortens limit whole written) :
    written.length ≤ limit := by
  rcases Nat.lt_or_ge limit whole.length with hlong | hshort
  · rw [h.2 hlong, List.length_append, List.length_take, List.length_singleton]
    omega
  · rwa [h.1 hshort]

theorem length_cut_le (hlimit : 1 ≤ limit) (line) : (cut (some limit) line).length ≤ limit :=
  (shortens_cut limit line).length_le hlimit

/-- A limit that no line exceeds changes nothing. -/
theorem renderWithin_eq_render {tree : Tree} (h : ∀ line ∈ tree.lines, line.length ≤ limit) :
    tree.renderWithin limit = tree.render := by
  have hkeep : ∀ line ∈ tree.lines, cut (some limit) line = cut none line :=
    fun line hline => (shortens_cut limit line).1 (h line hline)
  apply String.toList_injective
  rw [renderWithin, render, toList_draw, toList_draw]
  exact List.flatMap_congr fun line hline => by rw [hkeep line hline]

/-- Drawing within a limit cuts the lines of the unlimited drawing one by one. No line is longer
than the limit then, and nothing changes exactly if no line was. -/
theorem renderWithin_shortens_lines {tree : Tree} (hlabels : tree.LabelsFitLines) {limit : Nat}
    (hlimit : 1 ≤ limit) :
    List.Forall₂ (Shortens limit) (linesOf tree.render) (linesOf (tree.renderWithin limit)) ∧
      (linesOf (tree.renderWithin limit)).length = (linesOf tree.render).length ∧
      (∀ line ∈ linesOf (tree.renderWithin limit), line.length ≤ limit) ∧
      (tree.renderWithin limit = tree.render ↔
        ∀ line ∈ linesOf tree.render, line.length ≤ limit) := by
  have hwhole : linesOf tree.render = tree.lines := linesOf_render hlabels
  have hwritten : linesOf (tree.renderWithin limit) = tree.lines.map (cut (some limit)) :=
    linesOf_draw (some limit) hlabels
  have hlength : ∀ line ∈ tree.lines.map (cut (some limit)), line.length ≤ limit :=
    List.forall_mem_map.2 fun line _ => length_cut_le hlimit line
  rw [hwhole, hwritten]
  refine ⟨?_, List.length_map _, hlength, fun heq => ?_, renderWithin_eq_render⟩
  · exact List.forall₂_map_right_iff.2 (List.forall₂_same.2 fun line _ => shortens_cut limit line)
  · rwa [← hwritten, heq, hwhole] at hlength

/-- Three lines at a limit of six: one is too long, one just fits, and of the third not even the
margin fits. -/
theorem renderWithin_shortens_deep_line :
    let tree : Tree := ⟨"abcdefghij", [some ⟨"é…", [none, some (leaf "xy")]⟩]⟩
    tree.LabelsFitLines ∧ 1 ≤ 6 ∧ tree.renderWithin 6 = "abcde…\n └─ é…\n     …\n" ∧
      List.Forall₂ (Shortens 6) (linesOf tree.render) (linesOf (tree.renderWithin 6)) ∧
      (linesOf (tree.renderWithin 6)).length = (linesOf tree.render).length ∧
      (∀ line ∈ linesOf (tree.renderWithin 6), line.length ≤ 6) ∧
      (tree.renderWithin 6 = tree.render ↔ ∀ line ∈ linesOf tree.render, line.length ≤ 6) := by
  intro tree
  have hlabels : tree.LabelsFitLines := by
    simp [tree, LabelsFitLines, labels, branchLabels, leaf]
  have htext : tree.renderWithin 6 = "abcde…\n └─ é…\n     …\n" := by
    apply String.toList_injective
    rw [renderWithin, toList_draw]
    simp [tree, lines, branchLines, hook, gap, leaf, cut]
  exact ⟨hlabels, by decide, htext, renderWithin_shortens_lines hlabels (by decide)⟩

end SwiftToKotlin.Tree
