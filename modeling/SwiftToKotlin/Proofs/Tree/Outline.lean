import SwiftToKotlin.Proofs.Tree.Lines

/-!
# Reading a drawing

A drawing tells its tree, except for the subtrees that are absent. The margin of a line tells how
deep its label stands, whatever the label looks like, because a margin is read before the label
begins. The depths and labels from top to bottom tell the tree: below a label stand the deeper ones
that follow it.
-/

namespace SwiftToKotlin.Tree

/-! ## Trees without absent subtrees -/

def prunedBranches : List (Option Tree) → List Tree
  | [] => []
  | none :: rest => prunedBranches rest
  | some ⟨label, subtrees⟩ :: rest =>
    ⟨label, (prunedBranches subtrees).map some⟩ :: prunedBranches rest

/-- The tree with its absent subtrees removed. -/
def pruned (tree : Tree) : Tree :=
  ⟨tree.label, (prunedBranches tree.subtrees).map some⟩

theorem all_isNone_prunedBranches (branches) :
    ((prunedBranches branches).map some).all Option.isNone = branches.all Option.isNone := by
  induction branches using branches_induction with
  | nil => simp [prunedBranches]
  | absent rest ih => rw [prunedBranches, ih, List.all_cons, Option.isNone_none, Bool.true_and]
  | present label subtrees rest ihsubtrees ihrest => simp [prunedBranches]

theorem branchLines_prunedBranches (margin branches) :
    branchLines margin ((prunedBranches branches).map some) = branchLines margin branches := by
  induction branches using branches_induction generalizing margin with
  | nil => simp [prunedBranches]
  | absent rest ih => simp [prunedBranches, branchLines, ih]
  | present label subtrees rest ihsubtrees ihrest =>
    rw [prunedBranches, List.map_cons, branchLines, branchLines, ihsubtrees, ihrest, hook, hook, gap,
      gap, all_isNone_prunedBranches]

/-- Absent subtrees leave no trace. -/
theorem render_pruned (tree : Tree) : tree.pruned.render = tree.render := by
  apply String.toList_injective
  rw [render, render, toList_draw, toList_draw, lines, lines, pruned, branchLines_prunedBranches]

/-! ## Margins -/

/-- The depth of a label and the label itself, read from a line without its first blank: each step
of the margin is one level, and a hook ends the margin. -/
def readBranch (depth : Nat) : List Char → Option (Nat × List Char)
  | '├' :: '─' :: ' ' :: label => some (depth, label)
  | '└' :: '─' :: ' ' :: label => some (depth, label)
  | '│' :: ' ' :: ' ' :: ' ' :: rest => readBranch (depth + 1) rest
  | ' ' :: ' ' :: ' ' :: ' ' :: rest => readBranch (depth + 1) rest
  | _ => none

def readLine (line : List Char) : Option (Nat × List Char) :=
  readBranch 0 line.tail

theorem readBranch_hook (depth : Nat) (rest label) :
    readBranch depth (hook rest ++ label) = some (depth, label) := by
  unfold hook
  split <;> rfl

theorem readBranch_gap (depth : Nat) (rest text) :
    readBranch depth (gap rest ++ text) = readBranch (depth + 1) text := by
  unfold gap
  split <;> rfl

/-- The depths and the labels of branches, from top to bottom. -/
def branchOutline (depth : Nat) : List (Option Tree) → List (Nat × List Char)
  | [] => []
  | none :: rest => branchOutline depth rest
  | some ⟨label, subtrees⟩ :: rest =>
    (depth, label.toList) :: (branchOutline (depth + 1) subtrees ++ branchOutline depth rest)

/-- The lines of branches are read back one by one. What is known of the margin is only how deep it
leads. -/
theorem filterMap_readLine_branchLines
    (hmargin : ∀ text, readLine (margin ++ text) = readBranch depth text) (branches) :
    (branchLines margin branches).filterMap readLine = branchOutline depth branches := by
  induction branches using branches_induction generalizing margin depth with
  | nil => simp [branchLines, branchOutline]
  | absent rest ih => simpa [branchLines, branchOutline] using ih hmargin
  | present label subtrees rest ihsubtrees ihrest =>
    have hline : readLine (margin ++ hook rest ++ label.toList) = some (depth, label.toList) := by
      rw [List.append_assoc, hmargin, readBranch_hook]
    have hbelow (text : List Char) :
        readLine (margin ++ gap rest ++ text) = readBranch (depth + 1) text := by
      rw [List.append_assoc, hmargin, readBranch_gap]
    rw [branchLines, branchOutline, List.filterMap_cons_some hline, List.filterMap_append,
      ihsubtrees hbelow, ihrest hmargin]

/-! ## Outlines -/

/-- The trees that depths and labels tell, with the depth of each. Read from the end, a label takes
the deeper trees after it as its own. -/
def assemble : List (Nat × List Char) → List (Nat × Tree)
  | [] => []
  | (depth, label) :: rest =>
    let later := assemble rest
    let deeper (entry : Nat × Tree) : Bool := depth < entry.1
    (depth, ⟨String.ofList label, (later.takeWhile deeper).map (some ·.2)⟩) ::
      later.dropWhile deeper

/-- A label takes the trees of the next depth, up to one that is not deeper than itself. -/
theorem assemble_cons {below : List Tree} (label : String)
    (houtline : assemble outline = below.map (depth + 1, ·) ++ after)
    (hafter : ∀ entry ∈ after.head?, entry.1 ≤ depth) :
    assemble ((depth, label.toList) :: outline) = (depth, ⟨label, below.map some⟩) :: after := by
  have hbelow : ∀ entry ∈ below.map (depth + 1, ·), decide (depth < entry.1) = true := by simp
  have hstop : after.takeWhile (fun entry => decide (depth < entry.1)) = [] ∧
      after.dropWhile (fun entry => decide (depth < entry.1)) = after := by
    cases after with
    | nil => exact ⟨rfl, rfl⟩
    | cons entry more =>
      have hentry : ¬ decide (depth < entry.1) = true := by simpa using hafter entry rfl
      exact ⟨List.takeWhile_cons_of_neg hentry, List.dropWhile_cons_of_neg hentry⟩
  rw [assemble, houtline, List.takeWhile_append_of_pos hbelow, hstop.1,
    List.dropWhile_append_of_pos hbelow, hstop.2, List.append_nil, List.map_map, String.ofList_toList]
  rfl

/-- The outline of branches tells the branches, before anything that is not deeper. -/
theorem assemble_branchOutline (depth : Nat) (branches)
    (hrest : ∀ entry ∈ (assemble rest).head?, entry.1 ≤ depth) :
    assemble (branchOutline depth branches ++ rest) =
      (prunedBranches branches).map (depth, ·) ++ assemble rest := by
  induction branches using branches_induction generalizing depth rest with
  | nil => simp [branchOutline, prunedBranches]
  | absent others ih => simpa [branchOutline, prunedBranches] using ih depth hrest
  | present label subtrees others ihsubtrees ihothers =>
    have hafter : ∀ entry ∈ (assemble (branchOutline depth others ++ rest)).head?,
        entry.1 ≤ depth := by
      rw [ihothers depth hrest]
      cases prunedBranches others with
      | nil => exact hrest
      | cons first more => simp
    have hbelow := ihsubtrees (depth + 1) fun entry hentry => (hafter entry hentry).trans depth.le_succ
    rw [branchOutline, prunedBranches, List.cons_append, List.append_assoc,
      assemble_cons label hbelow hafter, ihothers depth hrest, List.map_cons, List.cons_append]

/-! ## Drawings -/

/-- The tree that a drawing shows. -/
def ofDrawing (text : String) : Tree :=
  let outline := (linesOf text).tail.filterMap readLine
  ⟨String.ofList ((linesOf text).headD []), (assemble outline).map (some ·.2)⟩

theorem ofDrawing_render {tree : Tree} (h : tree.LabelsFitLines) :
    ofDrawing tree.render = tree.pruned := by
  have houtline : (branchLines [' '] tree.subtrees).filterMap readLine =
      branchOutline 0 tree.subtrees :=
    filterMap_readLine_branchLines (fun text => rfl) tree.subtrees
  have hbranches : assemble (branchOutline 0 tree.subtrees) =
      (prunedBranches tree.subtrees).map (0, ·) := by
    have hnone : ∀ entry ∈ (assemble []).head?, entry.1 ≤ 0 := by simp [assemble]
    simpa [assemble] using assemble_branchOutline 0 tree.subtrees hnone
  rw [ofDrawing, linesOf_render h, lines, List.tail_cons, houtline, hbranches, pruned]
  simp

/-- A drawing shows its tree except for the absent subtrees, whatever the labels are, as long as
each fits on a line: the tree can be read from it, and two trees have the same drawing exactly if
they differ in absent subtrees only. -/
theorem render_shows_pruned {first second : Tree} (hfirst : first.LabelsFitLines)
    (hsecond : second.LabelsFitLines) :
    ofDrawing first.render = first.pruned ∧
      (first.render = second.render ↔ first.pruned = second.pruned) := by
  refine ⟨ofDrawing_render hfirst, fun h => ?_, fun h => ?_⟩
  · rw [← ofDrawing_render hfirst, h, ofDrawing_render hsecond]
  · rw [← render_pruned first, h, render_pruned second]

/-- Two trees that differ in absent subtrees only, with labels that look like parts of a drawing. -/
theorem render_shows_imitating_labels : let first : Tree :=
      ⟨"a", [some ⟨" ├─ b", [none, some (leaf "    └─ c")]⟩, none, some (leaf ""), none]⟩
    let second : Tree := ⟨"a", [some ⟨" ├─ b", [some (leaf "    └─ c")]⟩, some (leaf "")]⟩
    (first.LabelsFitLines ∧ second.LabelsFitLines) ∧
      ofDrawing first.render = second ∧ first.render = second.render := by
  intro first second
  have hfirst : first.LabelsFitLines := by
    simp [first, LabelsFitLines, labels, branchLabels, leaf]
  have hsecond : second.LabelsFitLines := by
    simp [second, LabelsFitLines, labels, branchLabels, leaf]
  have hpruned : first.pruned = second := by
    simp [first, second, pruned, prunedBranches, leaf]
  have hsame : first.pruned = second.pruned := by
    simp [first, second, pruned, prunedBranches, leaf]
  obtain ⟨hread, hiff⟩ := render_shows_pruned hfirst hsecond
  exact ⟨⟨hfirst, hsecond⟩, hread.trans hpruned, hiff.2 hsame⟩

end SwiftToKotlin.Tree
