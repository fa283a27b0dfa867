import SwiftToKotlin.Text.Quoted

/-! # JSON text

Values are laid out over several lines, with two blanks per level of nesting.
-/

namespace SwiftToKotlin

inductive Json
  | null
  | number (n : Nat)
  | string (text : String)
  | array (items : List Json)
  | object (fields : List (String × Json))

namespace Json

/-- The code of a control character in four digits. -/
def codeEscape (c : Char) : List Char :=
  let digits := Text.hexadecimal c.toNat
  ['\\', 'u'] ++ List.replicate (4 - digits.length) '0' ++ digits

def escapedChar (c : Char) : List Char :=
  match c with
  | '"' => ['\\', '"']
  | '\\' => ['\\', '\\']
  | '\x08' => ['\\', 'b']
  | '\x0c' => ['\\', 'f']
  | '\n' => ['\\', 'n']
  | '\r' => ['\\', 'r']
  | '\t' => ['\\', 't']
  | c => if c.toNat < 0x20 then codeEscape c else [c]

def quoted (text : String) : String :=
  String.ofList ('"' :: text.toList.flatMap escapedChar ++ ['"'])

def indented (line : String) : String :=
  "  " ++ line

/-- Puts a comma behind the last line of each item but the last. -/
def withCommas : List (List String) → List String
  | [] => []
  | [item] => item
  | item :: rest =>
    item.dropLast ++ (item.getLast?.map (· ++ ",")).toList ++ withCommas rest

/-- Items between brackets, on lines of their own. -/
def bracketed (opening closing : String) (items : List (List String)) : List String :=
  if items.isEmpty then [opening ++ closing]
  else [opening] ++ (withCommas items).map indented ++ [closing]

def labelled (key : String) : List String → List String
  | [] => []
  | first :: rest => s!"{quoted key}: {first}" :: rest

mutual

def lines : Json → List String
  | .null => ["null"]
  | .number n => [toString n]
  | .string text => [quoted text]
  | .array items => bracketed "[" "]" (itemLines items)
  | .object fields => bracketed "\x7b" "\x7d" (fieldLines fields)

def itemLines : List Json → List (List String)
  | [] => []
  | item :: rest => item.lines :: itemLines rest

def fieldLines : List (String × Json) → List (List String)
  | [] => []
  | (key, value) :: rest => labelled key value.lines :: fieldLines rest

end

def pretty (json : Json) : String :=
  "\n".intercalate json.lines

end Json

end SwiftToKotlin
