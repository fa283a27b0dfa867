import SwiftToKotlin.Dump.Token

/-! # Faults of a dump

What can be wrong with the text of a dump, and the place at which it is reported.
-/

namespace SwiftToKotlin.Dump

/-- The deepest nesting of nodes, the root counted as one. -/
def maxDepth : Nat := 256

inductive Fault
  | lexical (fault : LexFault)
  | empty
  | expectedOpening (found : Token)
  | expectedKind (found : Token)
  | unclosed (opening : Nat)
  | tooDeep
  | malformedRange (text : String)
  | stringForName
  | strayEquals
  | missingValue (name : String)
  | unexpectedValue (name : String) (found : Token)
  | afterRoot (found : Token)
  deriving DecidableEq

def LexFault.reason : LexFault → String
  | unterminatedString => "unterminated string"
  | unterminatedRange => "unterminated range: expected `]`"
  | strayBracket => "unexpected `]`"

def Fault.reason : Fault → String
  | lexical fault => fault.reason
  | empty => "empty dump: expected `(`"
  | expectedOpening found => s!"expected `(`, found {found.describe}"
  | expectedKind found => s!"expected a node kind, found {found.describe}"
  | unclosed opening => s!"unclosed `(` opened at offset {opening}: expected `)`"
  | tooDeep => s!"nodes nested more than {maxDepth} deep"
  | malformedRange text => s!"malformed range `[{text}]`"
  | stringForName => "expected an attribute name, found a string"
  | strayEquals => "unexpected `=`"
  | missingValue name => s!"expected a value after `{name}=`"
  | unexpectedValue name found => s!"expected a value after `{name}=`, found {found.describe}"
  | afterRoot found => s!"unexpected {found.describe} after the root node"

/-- The characters that end within the first `offset` bytes. -/
def charsBefore (offset : Nat) : List Char → List Char
  | [] => []
  | c :: cs => if c.utf8Size ≤ offset then c :: charsBefore (offset - c.utf8Size) cs else []

/-- A fault at a place of the text. The offset counts bytes; the line and the column count from
one, and the column counts characters. -/
structure SyntaxError where
  fault : Fault
  offset : Nat
  line : Nat
  column : Nat
  deriving DecidableEq

namespace SyntaxError

def locate (text : List Char) (offset : Nat) (fault : Fault) : SyntaxError :=
  let before := charsBefore offset text
  { fault, offset
    line := before.count '\n' + 1
    column := (before.reverse.takeWhile (· != '\n')).length + 1 }

def message (error : SyntaxError) : String :=
  s!"{error.fault.reason} at {error.line}:{error.column} (offset {error.offset})"

end SyntaxError

end SwiftToKotlin.Dump
