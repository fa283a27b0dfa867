import SwiftToKotlin.Text.Blank

/-! # Tokens of a dump

A dump is spelled with parentheses, equals signs, words, quoted strings and bracketed ranges. The
lexer reads it character by character; what it is in the middle of is its mode. It stops at the
first character that no token can begin with, and what it has read until then stays valid.
-/

namespace SwiftToKotlin.Dump

inductive Token
  | opening
  | closing
  | equals
  | word (text : String)
  | quoted (text : String)
  | bracketed (text : String)
  deriving DecidableEq

namespace Token

/-- How a message names the token. -/
def describe : Token → String
  | opening => "`(`"
  | closing => "`)`"
  | equals => "`=`"
  | word text => s!"`{text}`"
  | quoted _ => "a string"
  | bracketed _ => "a range"

end Token

/-- A token and the byte offset at which it begins. -/
structure Lexeme where
  offset : Nat
  token : Token
  deriving DecidableEq

/-- Why a text stops being a sequence of tokens. -/
inductive LexFault
  | unterminatedString
  | unterminatedRange
  | strayBracket
  deriving DecidableEq

def isWordChar (c : Char) : Bool :=
  !Text.isBlank c &&
    !(c == '(' || c == ')' || c == '[' || c == ']' || c == '=' || c == '"' || c == '\'')

namespace Lexer

/-- What has been begun and at which byte offset. The characters read stand in reverse. -/
inductive Mode
  | between
  | word (start : Nat) (read : List Char)
  | quoted (start : Nat) (quote : Char) (read : List Char)
  | escaped (start : Nat) (quote : Char) (read : List Char)
  | bracketed (start : Nat) (read : List Char)
  | stopped (offset : Nat) (fault : LexFault)

/-- The byte offset of the next character, the mode, and the tokens so far, latest first. -/
structure State where
  offset : Nat
  mode : Mode
  lexemes : List Lexeme

def State.initial : State :=
  ⟨0, .between, []⟩

/-- What a backslash and the character after it stand for, in reverse. -/
def unescape : Char → List Char
  | 'n' => ['\n']
  | 't' => ['\t']
  | 'r' => ['\r']
  | '"' => ['"']
  | '\'' => ['\'']
  | '\\' => ['\\']
  | c => [c, '\\']

/-- A character that does not go on with a token. -/
def begin (offset : Nat) (lexemes : List Lexeme) (c : Char) : Mode × List Lexeme :=
  if Text.isBlank c then (.between, lexemes)
  else match c with
    | '(' => (.between, ⟨offset, .opening⟩ :: lexemes)
    | ')' => (.between, ⟨offset, .closing⟩ :: lexemes)
    | '=' => (.between, ⟨offset, .equals⟩ :: lexemes)
    | '"' => (.quoted offset '"' [], lexemes)
    | '\'' => (.quoted offset '\'' [], lexemes)
    | '[' => (.bracketed offset [], lexemes)
    | ']' => (.stopped offset .strayBracket, lexemes)
    | c => (.word offset [c], lexemes)

def textOf (read : List Char) : String :=
  String.ofList read.reverse

def advance (offset : Nat) (mode : Mode) (lexemes : List Lexeme) (c : Char) : Mode × List Lexeme :=
  match mode with
  | .between => begin offset lexemes c
  | .word start read =>
    if isWordChar c then (.word start (c :: read), lexemes)
    else begin offset (⟨start, .word (textOf read)⟩ :: lexemes) c
  | .quoted start quote read =>
    if c = quote then (.between, ⟨start, .quoted (textOf read)⟩ :: lexemes)
    else if c = '\\' then (.escaped start quote read, lexemes)
    else (.quoted start quote (c :: read), lexemes)
  | .escaped start quote read => (.quoted start quote (unescape c ++ read), lexemes)
  | .bracketed start read =>
    if c = ']' then (.between, ⟨start, .bracketed (textOf read)⟩ :: lexemes)
    else (.bracketed start (c :: read), lexemes)
  | .stopped place fault => (.stopped place fault, lexemes)

def step (state : State) (c : Char) : State :=
  let (mode, lexemes) := advance state.offset state.mode state.lexemes c
  ⟨state.offset + c.utf8Size, mode, lexemes⟩

/-- The tokens in order, and the fault after them if the text goes on without being tokens. -/
def finish (state : State) : List Lexeme × Option (Nat × LexFault) :=
  match state.mode with
  | .between => (state.lexemes.reverse, none)
  | .word start read => ((⟨start, .word (textOf read)⟩ :: state.lexemes).reverse, none)
  | .quoted start _ _ => (state.lexemes.reverse, some (start, .unterminatedString))
  | .escaped start _ _ => (state.lexemes.reverse, some (start, .unterminatedString))
  | .bracketed start _ => (state.lexemes.reverse, some (start, .unterminatedRange))
  | .stopped offset fault => (state.lexemes.reverse, some (offset, fault))

end Lexer

/-- The tokens of a text, up to the first fault. -/
def lex (text : List Char) : List Lexeme × Option (Nat × LexFault) :=
  Lexer.finish (text.foldl Lexer.step Lexer.State.initial)

end SwiftToKotlin.Dump
