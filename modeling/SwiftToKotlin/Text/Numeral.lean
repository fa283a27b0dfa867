import SwiftToKotlin.Text.Cut

/-! # Numerals

Reading of decimal numerals within the bounds of 64 bits, and the texts that Swift accepts as
integer and floating-point literals.
-/

namespace SwiftToKotlin.Text

def digitValue (c : Char) : Nat :=
  if c.isDigit then c.toNat - '0'.toNat
  else if 'a' ≤ c ∧ c ≤ 'f' then c.toNat - 'a'.toNat + 10
  else c.toNat - 'A'.toNat + 10

def isDigitOf (radix : Nat) (c : Char) : Bool :=
  (c.isDigit || ('a' ≤ c && c ≤ 'f') || ('A' ≤ c && c ≤ 'F')) && digitValue c < radix

def valueOf (radix : Nat) (digits : List Char) : Nat :=
  digits.foldl (fun n c => n * radix + digitValue c) 0

def isDecimal (cs : List Char) : Bool :=
  !cs.isEmpty && cs.all Char.isDigit

/-- A decimal numeral below `2 ^ 64`, with an optional plus sign. -/
def readNatural (cs : List Char) : Option Nat :=
  let digits := match cs with
    | '+' :: rest => rest
    | _ => cs
  if isDecimal digits ∧ valueOf 10 digits < Nat.pow 2 64 then some (valueOf 10 digits) else none

/-- Whether an integer fits into 64 bits with a sign. -/
def fitsSigned (n : Int) : Bool :=
  -(Int.pow 2 63) ≤ n && n < Int.pow 2 63

/-- A decimal numeral that fits into 64 bits with a sign. -/
def readInteger (cs : List Char) : Option Int :=
  let (negative, digits) := match cs with
    | '+' :: rest => (false, rest)
    | '-' :: rest => (true, rest)
    | _ => (false, cs)
  let magnitude : Int := valueOf 10 digits
  let value := if negative then -magnitude else magnitude
  if isDecimal digits ∧ fitsSigned value then some value else none

def dropUnderscores (cs : List Char) : List Char :=
  cs.filter (· != '_')

/-- The radix that the two leading characters announce, and the characters after them. -/
def splitRadix : List Char → Nat × List Char
  | '0' :: 'x' :: rest => (16, rest)
  | '0' :: 'b' :: rest => (2, rest)
  | '0' :: 'o' :: rest => (8, rest)
  | cs => (10, cs)

/-- An integer literal in the notation that Kotlin shares. Kotlin has no octal literals, so those
become decimal as long as they stay below `2 ^ 128`; every other accepted text is kept. -/
def normalizeInteger (text : String) : Option String :=
  let (sign, digits) := match text.toList with
    | '-' :: rest => ("-", rest)
    | cs => ("", cs)
  let (radix, body) := splitRadix digits
  let plain := dropUnderscores body
  if plain.isEmpty || !plain.all (isDigitOf radix) then none
  else if radix = 8 then
    if valueOf 8 plain < Nat.pow 2 128 then some (sign ++ toString (valueOf 8 plain)) else none
  else some text

/-- A decimal exponent, or nothing at all. -/
def isExponent : List Char → Bool
  | [] => true
  | e :: rest =>
    (e == 'e' || e == 'E') &&
      match rest with
      | '+' :: digits => isDecimal digits
      | '-' :: digits => isDecimal digits
      | digits => isDecimal digits

/-- A decimal number: digits around an optional point, at least one of them, and an exponent. -/
def isDecimalNumber (cs : List Char) : Bool :=
  let whole := cs.takeWhile Char.isDigit
  match cs.dropWhile Char.isDigit with
  | '.' :: rest =>
    !(whole.isEmpty && (rest.takeWhile Char.isDigit).isEmpty) &&
      isExponent (rest.dropWhile Char.isDigit)
  | rest => !whole.isEmpty && isExponent rest

/-- Whether the text denotes a floating-point number. The names of infinity and of the value that
is no number count, in any letter case. -/
def isFloat (text : String) : Bool :=
  let unsigned := match dropUnderscores text.toList with
    | '+' :: rest => rest
    | '-' :: rest => rest
    | cs => cs
  isDecimalNumber unsigned ||
    ["inf", "infinity", "nan"].any (fun name => name.toList == unsigned.map Char.toLower)

end SwiftToKotlin.Text
