import SwiftToKotlin.Toml.Scalar

/-! # TOML documents

A document is read line by line into a table under construction, which remembers how each of its
tables came about: no table may be opened twice, and dots in a key extend only tables that such
keys have made.
-/

namespace SwiftToKotlin.Toml

/-! ## Tables under construction -/

/-- What made a table: a header or the document itself, the header of a table within it, or a key
with dots. -/
inductive Origin
  | declared
  | implied
  | dotted
  deriving DecidableEq

inductive Item
  | value (value : Value)
  | table (origin : Origin) (entries : List (String × Item))
  | tables (elements : List (List (String × Item)))

abbrev Draft := List (String × Item)

namespace Draft

/-- Changes what stands at a key, if the change is allowed. -/
def alter (draft : Draft) (key : String) (change : Option Item → Option Item) : Option Draft :=
  (change (draft.lookup key)).map fun item => (key, item) :: draft.filter (·.1 != key)

/-- Changes the table at the end of a path. Tables that are missing on the way come about by
`origin`, and of an array of tables the last one is meant. -/
def within (origin : Origin) (change : Origin → Draft → Option Draft) :
    List String → Origin → Draft → Option Draft
  | [], here, draft => change here draft
  | key :: path, _, draft =>
    draft.alter key fun
      | none => (within origin change path origin []).map (.table origin)
      | some (.table old entries) =>
        if origin = .dotted ∧ old = .declared then none
        else (within origin change path old entries).map (.table old)
      | some (.tables elements) => do
        let last ← elements.getLast?
        let changed ← within origin change path .declared last
        return .tables (elements.dropLast ++ [changed])
      | some (.value _) => none

/-- Adds a value at a key with dots. -/
def addPair (path : List String) (value : Value) (draft : Draft) : Option Draft := do
  let key ← path.getLast?
  let tables := path.dropLast
  let add (here : Origin) (draft : Draft) : Option Draft :=
    if !tables.isEmpty && here ≠ .dotted then none
    else draft.alter key fun
      | none => some (.value value)
      | some _ => none
  within .dotted add tables .declared draft

/-- Opens the table of a header. -/
def openTable : Option Item → Option Item
  | none => some (.table .declared [])
  | some (.table .implied entries) => some (.table .declared entries)
  | some _ => none

/-- Opens a further table of an array of tables. -/
def openElement : Option Item → Option Item
  | none => some (.tables [[]])
  | some (.tables elements) => some (.tables (elements ++ [[]]))
  | some _ => none

def header (isElement : Bool) (path : List String) (draft : Draft) : Option Draft := do
  let key ← path.getLast?
  let opened (_ : Origin) (draft : Draft) : Option Draft :=
    draft.alter key (if isElement then openElement else openTable)
  within .implied opened path.dropLast .declared draft

end Draft

mutual

def Item.finished : Item → Value
  | .value value => value
  | .table _ entries => .table (finishedEntries entries)
  | .tables elements => .array (finishedElements elements)

def finishedEntries : List (String × Item) → Table
  | [] => []
  | (key, item) :: rest => (key, item.finished) :: finishedEntries rest

def finishedElements : List (List (String × Item)) → List Value
  | [] => []
  | entries :: rest => .table (finishedEntries entries) :: finishedElements rest

end

/-! ## Values -/

open Reader

def pair (value : Reader Value) : Reader (List String × Value) := do
  let path ← key
  char '='
  blanks
  return (path, ← value)

def array (value : Reader Value) : Reader Value := do
  char '['
  gap
  let items ← optional (separated ',' (gap *> value <* gap))
  if items.isSome then discard (optional (char ','))
  gap
  char ']'
  return .array (items.getD [])

/-- A table on one line. -/
def inlineTable (value : Reader Value) : Reader Value := do
  char '\x7b'
  blanks
  let pairs ← optional (separated ',' (pair value <* blanks))
  blanks
  char '\x7d'
  let add (draft : Draft) : List String × Value → Option Draft
    | (path, value) => draft.addPair path value
  let draft ← StateT.lift ((pairs.getD []).foldlM add [])
  return .table (finishedEntries draft)

/-- A value with at most so many arrays and tables around a value within it. -/
def nestedValue : Nat → Reader Value
  | 0 => scalar
  | depth + 1 =>
    let inner := nestedValue depth
    array inner <|> inlineTable inner <|> scalar

def value : Reader Value :=
  nestedValue 79

/-! ## Lines -/

inductive Line
  | blank
  | header (isElement : Bool) (path : List String)
  | pair (path : List String) (value : Value)

def headerLine : Reader Line := do
  char '['
  let isElement := (← optional (char '[')).isSome
  let path ← key
  char ']'
  if isElement then char ']'
  restOfLine
  return .header isElement path

def pairLine : Reader Line := do
  let (path, value) ← pair value
  restOfLine
  return .pair path value

def line : Reader Line := do
  blanks
  match ← peek with
  | some '#' =>
    comment
    lineEnd
    return .blank
  | some '\n' | some '\r' =>
    newline
    return .blank
  | some '[' => headerLine
  | _ => pairLine

/-- All lines of a text, which may begin with a byte order mark. -/
def lines : Reader (List Line) := do
  discard (optional (char '\ufeff'))
  let lines ← many line
  blanks
  atEnd
  return lines

/-- Adds lines to a draft whose current table is the one at `here`. -/
def build : List Line → List String → Draft → Option Draft
  | [], _, draft => some draft
  | .blank :: rest, here, draft => build rest here draft
  | .header isElement path :: rest, _, draft => do
    build rest path (← draft.header isElement path)
  | .pair path value :: rest, here, draft => do
    let add (_ : Origin) (draft : Draft) : Option Draft := draft.addPair path value
    build rest here (← draft.within .implied add here .declared)

/-- The table that a document denotes. -/
def parse (text : String) : Option Table := do
  let (lines, _) ← StateT.run lines text.toList
  return finishedEntries (← build lines [] [])

end SwiftToKotlin.Toml
