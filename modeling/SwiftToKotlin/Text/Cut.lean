/-! # Cutting a text at a separator -/

namespace SwiftToKotlin.Text

/-- The parts before and after the last place where `mark` occurs. -/
def cutLast (mark : List Char) : List Char → Option (List Char × List Char)
  | [] => none
  | c :: cs =>
    match cutLast mark cs with
    | some (before, after) => some (c :: before, after)
    | none => if mark.isPrefixOf (c :: cs) then some ([], (c :: cs).drop mark.length) else none

/-- The pieces between the occurrences of a character; one more than there are occurrences. -/
def pieces (mark : Char) : List Char → List (List Char)
  | [] => [[]]
  | c :: cs =>
    if c = mark then [] :: pieces mark cs
    else match pieces mark cs with
      | [] => [[c]]
      | first :: rest => (c :: first) :: rest

/-- Puts a space between `a` and `b` wherever they stand next to each other. -/
def setApart (a b : Char) : List Char → List Char
  | [] => []
  | [c] => [c]
  | c :: d :: cs =>
    if c = a ∧ d = b then a :: ' ' :: b :: setApart a b cs else c :: setApart a b (d :: cs)

/-- The text without the characters `c` at both ends. -/
def strip (c : Char) (text : String) : String :=
  String.ofList ((text.toList.dropWhile (· == c)).reverse.dropWhile (· == c)).reverse

/-- The text without a leading `mark`, if it has one. -/
def without (mark text : String) : Option String :=
  if mark.toList.isPrefixOf text.toList then
    some (String.ofList (text.toList.drop mark.length))
  else none

end SwiftToKotlin.Text
