import SwiftToKotlin.Text.Cut
import SwiftToKotlin.Text.LetterCase

/-! # Names

Swift identifiers become Kotlin identifiers. Enum cases are named once: the first style that a case
of an enum is asked for decides how it is written everywhere.
-/

namespace SwiftToKotlin.Lowering

/-- Keywords of Kotlin that Swift uses as identifiers. -/
def kotlinKeywords : List String :=
  ["as", "fun", "in", "interface", "is", "null", "object", "package", "this", "typealias",
    "typeof", "val", "when"]

/-- The Kotlin identifier for a Swift identifier, which may stand in backticks. -/
def identifier (source : String) : String :=
  let bare := Text.strip '\x60' source
  if bare = "self" then "this"
  else if bare ∈ kotlinKeywords then s!"`{bare}`"
  else bare

/-! ## Styles of enum cases -/

/-- `NORTH_EAST` for entries of an enumeration, `NorthEast` for subclasses. -/
inductive CaseStyle
  | upperSnake
  | upperCamel
  deriving DecidableEq

/-- Whether a word of a camel-case name begins with `c`. -/
def startsWord (previous c : Char) (next : Option Char) : Bool :=
  Text.isUppercase c &&
    (Text.isLowercase previous || previous.isDigit ||
      (Text.isUppercase previous && next.any Text.isLowercase))

/-- The upper-case words after `previous`, with underscores between them. -/
def snakeAfter (previous : Char) : List Char → List Char
  | [] => []
  | c :: rest =>
    (if startsWord previous c rest.head? then ['_'] else []) ++ Text.uppercase c
      ++ snakeAfter c rest

def upperSnake (name : String) : String :=
  match name.toList with
  | [] => ""
  | c :: rest => String.ofList (Text.uppercase c ++ snakeAfter c rest)

def upperCamel (name : String) : String :=
  String.ofList (Text.capitalize name.toList)

def CaseStyle.apply : CaseStyle → String → String
  | upperSnake => Lowering.upperSnake
  | upperCamel => Lowering.upperCamel

/-! ## The table of named cases -/

/-- The names given to enum cases so far, by enum and case. -/
structure CaseTable where
  entries : List (String × String)

namespace CaseTable

def empty : CaseTable :=
  ⟨[]⟩

def key (enum case : String) : String :=
  s!"{enum}.{case}"

def name? (table : CaseTable) (enum case : String) : Option String :=
  table.entries.lookup (key enum case)

/-- The name of a case, and the table in which it is settled. -/
def name (table : CaseTable) (enum case : String) (style : CaseStyle) : String × CaseTable :=
  match table.name? enum case with
  | some name => (name, table)
  | none =>
    let name := style.apply (Text.strip '\x60' case)
    (name, ⟨(key enum case, name) :: table.entries⟩)

end CaseTable

end SwiftToKotlin.Lowering
