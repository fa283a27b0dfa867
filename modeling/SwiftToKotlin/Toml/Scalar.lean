import SwiftToKotlin.Toml.Quotation
import SwiftToKotlin.Toml.Value

/-! # Numbers and dates of TOML -/

namespace SwiftToKotlin.Toml

open Reader

/-! ## Integers -/

/-- Digits, with single underscores between them. -/
def digits (radix : Nat) : Reader (List Char) := do
  let digit := one (Text.isDigitOf radix)
  let first ← digit
  return first :: (← many (digit <|> (char '_' *> digit)))

/-- The digits of a decimal number: more than one only if the first is not zero. -/
def wholeDigits : Reader (List Char) := do
  if (← peek) = some '0' then return [← one (· == '0')] else digits 10

/-- Whether there is a minus sign here. A plus sign may stand instead. -/
def sign : Reader Bool :=
  (char '-' *> pure true) <|> (char '+' *> pure false) <|> pure false

def checkedInteger (n : Int) : Reader Value := do
  guard (Text.fitsSigned n)
  return .integer n

def integerOf (mark : String) (radix : Nat) : Reader Value := do
  word mark
  checkedInteger (Text.valueOf radix (← digits radix))

def decimalInteger : Reader Value := do
  let negative ← sign
  let magnitude : Int := Text.valueOf 10 (← wholeDigits)
  checkedInteger (if negative then -magnitude else magnitude)

def integer : Reader Value :=
  integerOf "0x" 16 <|> integerOf "0o" 8 <|> integerOf "0b" 2 <|> decimalInteger

/-! ## Numbers with a fraction or an exponent -/

def fraction : Reader (List Char) :=
  char '.' *> digits 10

def exponent : Reader Int := do
  discard (one fun c => c == 'e' || c == 'E')
  let negative ← sign
  let magnitude : Int := Text.valueOf 10 (← digits 10)
  return if negative then -magnitude else magnitude

/-- The least number that double precision has no room for: `2 ^ 1024` less half a unit in the last
place. -/
def infinityThreshold : Nat :=
  Nat.pow 2 1024 - Nat.pow 2 970

/-- Whether the digits, taken as an integer, times a power of ten exceed double precision. -/
def exceedsDouble (digits : List Char) (power : Int) : Bool :=
  let significant := digits.dropWhile (· == '0')
  let size : Int := significant.length + power
  if significant.isEmpty || size < 300 then false
  else if size > 320 then true
  else
    let n := Text.valueOf 10 significant
    if power < 0 then n ≥ infinityThreshold * Nat.pow 10 power.natAbs
    else n * Nat.pow 10 power.toNat ≥ infinityThreshold

def finiteFloat : Reader Unit := do
  let negative ← sign
  let whole ← wholeDigits
  let (decimals, power) ←
    (do return ([], ← exponent)) <|> (do
      let decimals ← fraction
      return (decimals, (← optional exponent).getD 0))
  guard (negative || !exceedsDouble (whole ++ decimals) (power - decimals.length))

def specialFloat : Reader Unit := do
  discard sign
  word "inf" <|> word "nan"

def float : Reader Value :=
  .float <$> taken (finiteFloat <|> specialFloat)

/-! ## Dates and times -/

/-- A number of exactly so many digits between two bounds. -/
def field (count low high : Nat) : Reader Nat := do
  let n := Text.valueOf 10 (← (List.replicate count ()).mapM fun _ => one Char.isDigit)
  guard (low ≤ n ∧ n ≤ high)
  return n

def isLeapYear (year : Nat) : Bool :=
  year % 4 == 0 && (year % 100 != 0 || year % 400 == 0)

def daysInMonth (year month : Nat) : Nat :=
  if month = 2 then (if isLeapYear year then 29 else 28)
  else if month ∈ [4, 6, 9, 11] then 30
  else 31

def day : Reader Unit := do
  let year ← field 4 0 9999
  char '-'
  let month ← field 2 1 12
  char '-'
  discard (field 2 1 (daysInMonth year month))

/-- A fraction of a second, down to the billionth and without zeros at its end. -/
def secondFraction (digits : List Char) : String :=
  let kept := ((digits.take 9).reverse.dropWhile (· == '0')).reverse
  if kept.isEmpty then "" else s!".{String.ofList kept}"

def time : Reader String := do
  let whole ← taken do
    discard (field 2 0 23)
    char ':'
    discard (field 2 0 59)
    char ':'
    discard (field 2 0 60)
  let fraction ← optional do
    char '.'
    let digits ← run Char.isDigit
    guard !digits.isEmpty
    return secondFraction digits
  return whole ++ fraction.getD ""

/-- The distance to universal time. Where there is none it is written with a plus sign. -/
def offset : Reader String :=
  (one (fun c => c == 'Z' || c == 'z') *> pure "Z") <|> do
    let distance ← taken do
      discard (one fun c => c == '+' || c == '-')
      discard (field 2 0 23)
      char ':'
      discard (field 2 0 59)
    return if distance = "-00:00" then "+00:00" else distance

def timeOfDay : Reader String := do
  discard (one fun c => c == 'T' || c == 't' || c == ' ')
  let time ← time
  return "T" ++ time ++ (← optional offset).getD ""

def dayWithTime : Reader String := do
  let day ← taken day
  return day ++ (← optional timeOfDay).getD ""

/-- A date or a time, in the one form in which it is written out. -/
def date : Reader Value :=
  .date <$> (dayWithTime <|> time)

/-! ## All of them -/

def boolean : Reader Value :=
  (word "true" *> pure (.boolean true)) <|> (word "false" *> pure (.boolean false))

def scalar : Reader Value :=
  (.string <$> string) <|> boolean <|> date <|> float <|> integer

end SwiftToKotlin.Toml
