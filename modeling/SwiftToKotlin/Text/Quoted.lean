import SwiftToKotlin.Text.Printable

/-! # Quoted text

A text between double quotes that shows every character of it: what cannot be shown, or would join
the character before it, is written by its code point in lower-case hexadecimal.
-/

namespace SwiftToKotlin.Text

def hexadecimal (n : Nat) : List Char :=
  Nat.toDigits 16 n

def escapedChar (c : Char) : List Char :=
  match c with
  | '"' => ['\\', '"']
  | '\\' => ['\\', '\\']
  | '\n' => ['\\', 'n']
  | '\r' => ['\\', 'r']
  | '\t' => ['\\', 't']
  | '\x00' => ['\\', '0']
  | c =>
    if isExtending c || !isPrintable c then
      ['\\', 'u', '\x7b'] ++ hexadecimal c.toNat ++ ['\x7d']
    else [c]

def quoted (text : String) : String :=
  String.ofList ('"' :: text.toList.flatMap escapedChar ++ ['"'])

end SwiftToKotlin.Text
