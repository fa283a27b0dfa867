/-! # Kotlin operators -/

namespace SwiftToKotlin.Kotlin

inductive BinaryOp
  | mul
  | div
  | rem
  | add
  | sub
  | rangeTo
  | rangeUntil
  | and
  | or
  | xor
  | shl
  | shr
  | pair
  | elvis
  | lt
  | le
  | gt
  | ge
  | eq
  | ne
  | identical
  | notIdentical
  | conj
  | disj
  deriving DecidableEq

namespace BinaryOp

def symbol : BinaryOp → String
  | mul => "*"
  | div => "/"
  | rem => "%"
  | add => "+"
  | sub => "-"
  | rangeTo => ".."
  | rangeUntil => "until"
  | and => "and"
  | or => "or"
  | xor => "xor"
  | shl => "shl"
  | shr => "shr"
  | pair => "to"
  | elvis => "?:"
  | lt => "<"
  | le => "<="
  | gt => ">"
  | ge => ">="
  | eq => "=="
  | ne => "!="
  | identical => "==="
  | notIdentical => "!=="
  | conj => "&&"
  | disj => "||"

/-- How tightly the operator binds in Kotlin's grammar; a greater number binds tighter. -/
def precedence : BinaryOp → Nat
  | mul | div | rem => 10
  | add | sub => 9
  | rangeTo => 8
  | rangeUntil | and | or | xor | shl | shr | pair => 7
  | elvis => 6
  | lt | le | gt | ge => 4
  | eq | ne | identical | notIdentical => 3
  | conj => 2
  | disj => 1

/-- Comparisons and equalities do not chain. -/
def isNonAssociative (op : BinaryOp) : Bool :=
  op.precedence == 3 || op.precedence == 4

end BinaryOp

inductive UnaryOp
  | neg
  | plus
  | not
  deriving DecidableEq

def UnaryOp.symbol : UnaryOp → String
  | neg => "-"
  | plus => "+"
  | not => "!"

inductive AssignOp
  | assign
  | add
  | sub
  | mul
  | div
  | rem
  deriving DecidableEq

def AssignOp.symbol : AssignOp → String
  | assign => "="
  | add => "+="
  | sub => "-="
  | mul => "*="
  | div => "/="
  | rem => "%="

/-- `as`, `as?` and `is`. -/
inductive CastKind
  | unchecked
  | safe
  | check
  deriving DecidableEq

def CastKind.keyword : CastKind → String
  | unchecked => "as"
  | safe => "as?"
  | check => "is"

end SwiftToKotlin.Kotlin
