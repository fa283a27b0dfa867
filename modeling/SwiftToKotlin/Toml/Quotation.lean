import SwiftToKotlin.Text.Numeral
import SwiftToKotlin.Toml.Reader

/-! # Quoted text and keys of TOML

Text stands between double quotes, with escapes, or between single quotes, as it is. Three quotes
open a text of several lines.
-/

namespace SwiftToKotlin.Toml

open Reader

/-! ## Escapes -/

/-- The character with a code point of exactly so many hexadecimal digits. -/
def codePoint (count : Nat) : Reader Char := do
  let digits ← (List.replicate count ()).mapM fun _ => one (Text.isDigitOf 16)
  let n := Text.valueOf 16 digits
  guard n.isValidChar
  return Char.ofNat n

def escape : Reader Char := do
  char '\\'
  match ← one fun _ => true with
  | 'b' => return '\x08'
  | 'f' => return '\x0c'
  | 'n' => return '\n'
  | 'r' => return '\r'
  | 't' => return '\t'
  | '"' => return '"'
  | '\\' => return '\\'
  | 'u' => codePoint 4
  | 'U' => codePoint 8
  | _ => failure

/-- A backslash at the end of a line takes the blanks and line ends after it with it. -/
def continuation : Reader Unit := do
  char '\\'
  blanks
  newline
  discard (many (discard (one isBlank) <|> newline))

/-! ## Texts on one line -/

def isUnescaped (c : Char) : Bool :=
  isPlain c && c != '"' && c != '\\'

def isLiteral (c : Char) : Bool :=
  isPlain c && c != '\''

def basicString : Reader String := do
  char '"'
  let text ← many (one isUnescaped <|> escape)
  char '"'
  return String.ofList text

def literalString : Reader String := do
  char '\''
  let text ← run isLiteral
  char '\''
  return String.ofList text

/-! ## Texts of several lines -/

/-- How many quotes stand here. -/
def quoteCount (quote : Char) : Reader Nat := do
  return ((← get).takeWhile (· == quote)).length

/-- One or two quotes within a text of several lines. -/
def innerQuotes (quote : Char) : Reader (List Char) := do
  let count ← quoteCount quote
  guard (count = 1 ∨ count = 2)
  run (· == quote)

/-- The three quotes at the end. One or two more before them belong to the text. -/
def closingQuotes (quote : Char) : Reader (List Char) := do
  let count := min (← quoteCount quote) 5
  guard (3 ≤ count)
  modify (List.drop count)
  return List.replicate (count - 3) quote

/-- A text of several lines. A line end right after the opening quotes does not count. -/
def severalLines (quote : Char) (piece : Reader (List Char)) : Reader String := do
  word (String.ofList [quote, quote, quote])
  discard (optional newline)
  let lineBreak : Reader (List Char) := newline *> pure ['\n']
  let text ← many (piece <|> lineBreak <|> innerQuotes quote)
  let rest ← closingQuotes quote
  return String.ofList (text.flatten ++ rest)

def longBasicString : Reader String :=
  severalLines '"' <|
    (List.singleton <$> one isUnescaped) <|> (List.singleton <$> escape) <|>
      (continuation *> pure [])

def longLiteralString : Reader String :=
  severalLines '\'' (List.singleton <$> one isLiteral)

def string : Reader String :=
  longBasicString <|> basicString <|> longLiteralString <|> literalString

/-! ## Keys -/

def isKeyChar (c : Char) : Bool :=
  c.isAlphanum || c == '-' || c == '_'

def bareKey : Reader String := do
  let name ← run isKeyChar
  guard !name.isEmpty
  return String.ofList name

def simpleKey : Reader String :=
  basicString <|> literalString <|> bareKey

/-- A key with dots between its parts, of which there may be fewer than 80. -/
def key : Reader (List String) := do
  let parts ← separated '.' (blanks *> simpleKey <* blanks)
  guard (parts.length < 80)
  return parts

end SwiftToKotlin.Toml
