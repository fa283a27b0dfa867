/-! # Drawings of trees

Anything that is a label with optional subtrees is drawn as an indented tree. An absent subtree
leaves no trace in the drawing.
-/

namespace SwiftToKotlin

structure Tree where
  label : String
  subtrees : List (Option Tree)
  deriving Inhabited

namespace Tree

def leaf (label : String) : Tree :=
  ⟨label, []⟩

def field (name value : String) : Tree :=
  leaf s!"{name}: {value}"

/-- The labelled group, unless all of its subtrees are absent. -/
def orNone (label : String) (subtrees : List (Option Tree)) : Option Tree :=
  if subtrees.all Option.isNone then none else some ⟨label, subtrees⟩

/-- The labelled group of items, unless there are none. -/
def group (label : String) (items : List Tree) : Option Tree :=
  orNone label (items.map some)

/-- A line of a drawing. When there is a limit and the line is longer, its first `limit - 1`
characters and an ellipsis. -/
def line (limit : Option Nat) (text : String) : String :=
  match limit with
  | some limit =>
    if text.length > limit then String.ofList (text.toList.take (limit - 1)) ++ "…\n"
    else text ++ "\n"
  | none => text ++ "\n"

/-- What is drawn below a label, each line behind `margin`. A subtree is the last one drawn when all
the subtrees after it are absent. -/
def drawBranches (limit : Option Nat) (margin : String) : List (Option Tree) → String
  | [] => ""
  | none :: rest => drawBranches limit margin rest
  | some ⟨label, subtrees⟩ :: rest =>
    if rest.all Option.isNone then
      line limit (margin ++ "└─ " ++ label) ++ drawBranches limit (margin ++ "    ") subtrees
        ++ drawBranches limit margin rest
    else
      line limit (margin ++ "├─ " ++ label) ++ drawBranches limit (margin ++ "│   ") subtrees
        ++ drawBranches limit margin rest
termination_by subtrees => sizeOf subtrees
decreasing_by
  all_goals
    simp only [List.cons.sizeOf_spec, Option.some.sizeOf_spec, mk.sizeOf_spec]
    omega

/-- The drawing of a tree, with every line within the limit if there is one. -/
def draw (limit : Option Nat) (tree : Tree) : String :=
  line limit tree.label ++ drawBranches limit " " tree.subtrees

def render (tree : Tree) : String :=
  tree.draw none

def renderWithin (limit : Nat) (tree : Tree) : String :=
  tree.draw (some limit)

end Tree

end SwiftToKotlin
