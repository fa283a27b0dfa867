import SwiftToKotlin.Dump.Fault
import SwiftToKotlin.Dump.Node
import SwiftToKotlin.Text.Numeral

/-! # From the text of a dump to its tree

A node is `(kind item*)`. An item is an attribute `key=value`, a flag (a word alone, kept with an
empty value), a source range in brackets, or a node. The tokens are read one by one with a stack of
the nodes that are still open.
-/

namespace SwiftToKotlin.Dump

/-! ## Ranges -/

/-- The optional file, the line and the column of `file:line:column`. -/
def readPlace (text : List Char) : Option (Option (List Char) × Nat × Nat) := do
  let (rest, column) ← Text.cutLast [':'] text
  let column ← Text.readNatural column
  match Text.cutLast [':'] rest with
  | some (file, line) => return (some file, ← Text.readNatural line, column)
  | none => return (none, ← Text.readNatural rest, column)

/-- A range `file:line:column - file:line:column`. Only the first file name counts; where it is
missing or empty the range is in `file`. -/
def readRange (file text : String) : Option SourceRange := do
  let (start, stop) ← Text.cutLast [' ', '-', ' '] text.toList
  let (startFile, startLine, startColumn) ← readPlace (Text.trim start)
  let (_, endLine, endColumn) ← readPlace (Text.trim stop)
  let file := match startFile with
    | some (c :: cs) => String.ofList (c :: cs)
    | _ => file
  return { file, startLine, startColumn, endLine, endColumn }

namespace Parser

/-- A node whose closing parenthesis is still to come. Attributes and children stand in reverse. -/
structure Frame where
  opening : Nat
  kind : String
  attributes : List (String × String)
  children : List Node
  range : Option SourceRange

namespace Frame

def start (opening : Nat) (kind : String) : Frame :=
  ⟨opening, kind, [], [], none⟩

def addAttribute (frame : Frame) (name value : String) : Frame :=
  { frame with attributes := (name, value) :: frame.attributes }

def addChild (frame : Frame) (child : Node) : Frame :=
  { frame with children := child :: frame.children }

def setRange (frame : Frame) (range : SourceRange) : Frame :=
  { frame with range := some range }

def close (frame : Frame) : Node :=
  ⟨frame.kind, frame.attributes.reverse, frame.children.reverse, frame.range⟩

end Frame

/-- What may come next. The innermost open node stands first. -/
inductive Expectation
  | root
  | kind (opening : Nat) (outer : List Frame)
  | item (frame : Frame) (outer : List Frame)
  | flagOrEquals (name : String) (frame : Frame) (outer : List Frame)
  | value (name : String) (equals : Nat) (frame : Frame) (outer : List Frame)
  | done (root : Node)

abbrev Step := Except (Nat × Fault) Expectation

def acceptRange (file : String) (offset : Nat) (text : String) (frame : Frame)
    (outer : List Frame) : Step :=
  match readRange file text with
  | some range => .ok (.item (frame.setRange range) outer)
  | none => .error (offset, .malformedRange text)

def closeNode (frame : Frame) : List Frame → Expectation
  | [] => .done frame.close
  | parent :: outer => .item (parent.addChild frame.close) outer

def acceptItem (file : String) (frame : Frame) (outer : List Frame) (lexeme : Lexeme) : Step :=
  match lexeme.token with
  | .closing => .ok (closeNode frame outer)
  | .opening =>
    if outer.length + 1 ≥ maxDepth then .error (lexeme.offset, .tooDeep)
    else .ok (.kind lexeme.offset (frame :: outer))
  | .bracketed text => acceptRange file lexeme.offset text frame outer
  | .word name => .ok (.flagOrEquals name frame outer)
  | .quoted _ => .error (lexeme.offset, .stringForName)
  | .equals => .error (lexeme.offset, .strayEquals)

def acceptValue (file name : String) (frame : Frame) (outer : List Frame) (lexeme : Lexeme) :
    Step :=
  match lexeme.token with
  | .quoted value => .ok (.item (frame.addAttribute name value) outer)
  | .word value => .ok (.item (frame.addAttribute name value) outer)
  | .bracketed text =>
    if name = "range" then acceptRange file lexeme.offset text frame outer
    else .ok (.item (frame.addAttribute name s!"[{text}]") outer)
  | found => .error (lexeme.offset, .unexpectedValue name found)

def step (file : String) (expectation : Expectation) (lexeme : Lexeme) : Step :=
  match expectation with
  | .root =>
    match lexeme.token with
    | .opening => .ok (.kind lexeme.offset [])
    | found => .error (lexeme.offset, .expectedOpening found)
  | .kind opening outer =>
    match lexeme.token with
    | .word kind => .ok (.item (Frame.start opening kind) outer)
    | found => .error (lexeme.offset, .expectedKind found)
  | .item frame outer => acceptItem file frame outer lexeme
  | .flagOrEquals name frame outer =>
    match lexeme.token with
    | .equals => .ok (.value name lexeme.offset frame outer)
    | _ => acceptItem file (frame.addAttribute name "") outer lexeme
  | .value name _ frame outer => acceptValue file name frame outer lexeme
  | .done _ => .error (lexeme.offset, .afterRoot lexeme.token)

/-- The tree, once the text of `size` bytes has ended. -/
def finish (size : Nat) : Expectation → Except (Nat × Fault) Node
  | .root => .error (0, .empty)
  | .kind opening _ => .error (size, .unclosed opening)
  | .item frame _ => .error (size, .unclosed frame.opening)
  | .flagOrEquals _ frame _ => .error (size, .unclosed frame.opening)
  | .value name equals _ _ => .error (equals, .missingValue name)
  | .done root => .ok root

end Parser

/-- The tree of a token sequence. A fault of the text after the tokens counts only when the tokens
themselves are in order. -/
def parseLexemes (file : String) (size : Nat) (lexemes : List Lexeme)
    (ending : Option (Nat × LexFault)) : Except (Nat × Fault) Node := do
  let expectation ← lexemes.foldlM (Parser.step file) .root
  match ending with
  | some (offset, fault) => .error (offset, .lexical fault)
  | none => Parser.finish size expectation

/-- The tree of a dump. Ranges that name no file are in `file`. -/
def parse (file text : String) : Except SyntaxError Node :=
  let (lexemes, ending) := lex text.toList
  match parseLexemes file text.utf8ByteSize lexemes ending with
  | .ok root => .ok root
  | .error (offset, fault) => .error (.locate text.toList offset fault)

/-- The file of ranges when nothing names one. -/
def unknownFile : String := "<dump>"

end SwiftToKotlin.Dump
