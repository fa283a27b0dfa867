import SwiftToKotlin.Text.Blank

/-! # Layout

Code is laid out as a beginning that goes on with the current line and further lines below it.
Lines carry their nesting level, counted from the level of the current line; the width of a level is
chosen only when the lines become text.
-/

namespace SwiftToKotlin.Kotlin

/-- A separating line is blank and has no level. -/
inductive Line
  | blank
  | code (level : Nat) (text : String)
  deriving DecidableEq

namespace Line

def indent : Line → Line
  | blank => blank
  | code level text => code (level + 1) text

/-- The line with more text at its end. -/
def extend (more : String) : Line → Line
  | blank => code 0 more
  | code level text => code level (text ++ more)

def render (width : Nat) : Line → String
  | blank => ""
  | code level text => String.ofList (List.replicate (level * width) ' ') ++ text

end Line

structure Fragment where
  head : String
  below : List Line
  deriving DecidableEq

namespace Fragment

def ofString (text : String) : Fragment :=
  ⟨text, []⟩

instance : Coe String Fragment :=
  ⟨ofString⟩

/-- The lines with a fragment going on from the last of them. -/
def continueLines (next : Fragment) : Line → List Line → List Line
  | last, [] => last.extend next.head :: next.below
  | line, other :: rest => line :: continueLines next other rest

protected def append (first next : Fragment) : Fragment :=
  match first.below with
  | [] => ⟨first.head ++ next.head, next.below⟩
  | line :: rest => ⟨first.head, continueLines next line rest⟩

instance : Append Fragment :=
  ⟨Fragment.append⟩

@[simp] theorem ofString_append (text : String) (next : Fragment) :
    ofString text ++ next = ⟨text ++ next.head, next.below⟩ := rfl

def concat (fragments : List Fragment) : Fragment :=
  fragments.foldr (· ++ ·) (ofString "")

def separated (separator : String) : List Fragment → Fragment
  | [] => ofString ""
  | first :: rest => first ++ concat (rest.map (ofString separator ++ ·))

/-- The fragment from the beginning of a line. -/
def lines (fragment : Fragment) : List Line :=
  .code 0 fragment.head :: fragment.below

/-- The lines one level deeper, below the current line. -/
def nested (lines : List Line) : Fragment :=
  ⟨"", lines.map Line.indent⟩

/-- The lines in braces that open on the current line and close on a line of their own. -/
def braced (lines : List Line) : Fragment :=
  ⟨"\x7b", lines.map Line.indent ++ [.code 0 "\x7d"]⟩

end Fragment

/-- Fragments below each other. -/
def stacked (items : List Fragment) : List Line :=
  items.flatMap Fragment.lines

/-- Fragments below each other, with blank lines around those that are marked. -/
def spaced : List (Bool × Fragment) → List Line
  | [] => []
  | [(_, item)] => item.lines
  | (marked, item) :: (nextMarked, next) :: rest =>
    item.lines ++ (if marked || nextMarked then [.blank] else [])
      ++ spaced ((nextMarked, next) :: rest)

/-- The text of the lines, without blanks at the end but for one line break. -/
def renderLines (width : Nat) (lines : List Line) : String :=
  let text := String.join (lines.map fun line => line.render width ++ "\n")
  String.ofList (Text.trimEnd text.toList) ++ "\n"

end SwiftToKotlin.Kotlin
