/-! # Reading of TOML text

Readers take what they need from the front of a text, or refuse it. The rules for blanks, comments
and the ends of lines are the same everywhere.
-/

namespace SwiftToKotlin.Toml

abbrev Reader := StateT (List Char) Option

namespace Reader

def peek : Reader (Option Char) := do
  return (← get).head?

/-- A character of a class. -/
def one (accepts : Char → Bool) : Reader Char := do
  match ← get with
  | c :: rest =>
    if accepts c then
      set rest
      return c
    else failure
  | [] => failure

def char (c : Char) : Reader Unit :=
  discard (one (· == c))

def word (text : String) : Reader Unit :=
  text.toList.forM char

/-- The longest run of characters of a class. -/
def run (accepts : Char → Bool) : Reader (List Char) := do
  let text ← get
  set (text.dropWhile accepts)
  return text.takeWhile accepts

/-- At most so many items, as long as there is one. -/
def upTo {α : Type} (item : Reader α) : Nat → Reader (List α)
  | 0 => pure []
  | n + 1 => do
    match ← optional item with
    | some first => return first :: (← upTo item n)
    | none => return []

/-- Items as long as there is one. Each of them takes a character at least. -/
def many {α : Type} (item : Reader α) : Reader (List α) := do
  upTo item (← get).length

/-- At least one item, with separators between them. -/
def separated {α : Type} (separator : Char) (item : Reader α) : Reader (List α) := do
  let first ← item
  return first :: (← many (char separator *> item))

def atEnd : Reader Unit := do
  guard (← get).isEmpty

/-- The text that a reader takes. -/
def taken (item : Reader Unit) : Reader String := do
  let before ← get
  item
  return String.ofList (before.take (before.length - (← get).length))

/-! ## Blanks and lines -/

def isBlank (c : Char) : Bool :=
  c == ' ' || c == '\t'

/-- The characters that may stand in a comment: all but the control characters. -/
def isPlain (c : Char) : Bool :=
  c == '\t' || (0x20 ≤ c.toNat && c.toNat != 0x7F)

def blanks : Reader Unit :=
  discard (run isBlank)

def newline : Reader Unit :=
  char '\n' <|> word "\r\n"

def comment : Reader Unit := do
  char '#'
  discard (run isPlain)

def lineEnd : Reader Unit :=
  newline <|> atEnd

/-- What may follow on a line after all has been said. -/
def restOfLine : Reader Unit := do
  blanks
  discard (optional comment)
  lineEnd

/-- Blanks, comments and ends of lines, which have no meaning within an array. -/
def gap : Reader Unit := do
  blanks
  discard (many do
    discard (optional comment)
    newline
    blanks)

end Reader

end SwiftToKotlin.Toml
