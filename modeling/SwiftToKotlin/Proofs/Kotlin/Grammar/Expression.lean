import SwiftToKotlin.Proofs.Kotlin.Grammar.Token

/-!
# The grammar of expressions

Kotlin's operators bind on levels. An expression of a level is one of the next level followed by the
operators of the level, which are taken from the left; above all binary operators stand the signs
and then the suffixes. A conditional expression is complete in itself, and its else branch reaches
as far as an expression can. There is at most one way to read a list of tokens.
-/

namespace SwiftToKotlin.Kotlin.Grammar

/-! ## Levels -/

/-- The operators behind an operand, level by level; each row binds tighter than those before it. -/
def ladder : List (List String) :=
  [["||"],
    ["&&"],
    ["==", "!=", "===", "!=="],
    ["<", "<=", ">", ">="],
    ["is"],
    ["?:"],
    ["until", "and", "or", "xor", "shl", "shr", "to"],
    [".."],
    ["+", "-"],
    ["*", "/", "%"],
    ["as", "as?"]]

/-- The level on which the signs before an operand stand. -/
def signLevel : Nat :=
  ladder.length + 1

def suffixLevel : Nat :=
  ladder.length + 2

def levelOf (symbol : String) : Option Nat :=
  (ladder.findIdx? (·.contains symbol)).map (· + 1)

/-- The level on which a token goes on with an operand before it. -/
def Token.level? : Token → Option Nat
  | word name => levelOf name
  | operator symbol => levelOf symbol
  | cast kind _ => levelOf kind.keyword
  | mark .openParen | mark .openBracket | mark .dot | mark .safeDot | mark .notNull =>
    some suffixLevel
  | _ => none

def binaryOps : List BinaryOp :=
  [.mul, .div, .rem, .add, .sub, .rangeTo, .rangeUntil, .and, .or, .xor, .shl, .shr, .pair, .elvis,
    .lt, .le, .gt, .ge, .eq, .ne, .identical, .notIdentical, .conj, .disj]

def Token.binaryOp? : Token → Option BinaryOp
  | word symbol | operator symbol => binaryOps.find? (·.symbol == symbol)
  | _ => none

def Token.unaryOp? : Token → Option UnaryOp
  | operator symbol => [.neg, .plus, .not].find? fun op => op.symbol == symbol
  | _ => none

/-! ## Reading -/

/-- What is read: an expression of a level, where level zero takes every expression; the operators
of a level behind their first operand; an operand; the arguments of a call behind those before. -/
inductive Place
  | level (level : Nat)
  | chain (level : Nat) (lhs : Node)
  | primary
  | arguments (callee : Node) (args : List (Argument Node))

/-- The name of an argument, if one is given, and the tokens of its value. -/
def splitName : List Token → Option String × List Token
  | .word name :: .mark .equals :: tokens => (some name, tokens)
  | tokens => (none, tokens)

/-- `Reads place tokens node rest`: the tokens begin with the `node`, and the `rest` follows. Nodes
have no place in a source, and a number is the literal of its text. -/
inductive Reads : Place → List Token → Node → List Token → Prop
  | level (h : l < suffixLevel) :
    Reads (.level (l + 1)) tokens lhs more → Reads (.chain l lhs) more node rest →
      Reads (.level l) tokens node rest
  | sign (h : token.unaryOp? = some op) :
    Reads (.level signLevel) tokens operand rest →
      Reads (.level signLevel) (token :: tokens) ⟨.unary op operand, none⟩ rest
  | suffixed :
    Reads .primary tokens base more → Reads (.chain suffixLevel base) more node rest →
      Reads (.level suffixLevel) tokens node rest
  | stop (h : tokens.head?.bind Token.level? ≠ some l) : Reads (.chain l lhs) tokens lhs tokens
  | operator (hop : token.binaryOp? = some op) (hlevel : token.level? = some l) :
    Reads (.level (l + 1)) tokens rhs more →
      Reads (.chain l ⟨.binary op lhs rhs, none⟩) more node rest →
        Reads (.chain l lhs) (token :: tokens) node rest
  | cast (hlevel : Token.level? (.cast kind ty) = some l) :
    Reads (.chain l ⟨.cast kind lhs ty, none⟩) tokens node rest →
      Reads (.chain l lhs) (.cast kind ty :: tokens) node rest
  | notNull :
    Reads (.chain suffixLevel ⟨.notNullAssert base, none⟩) tokens node rest →
      Reads (.chain suffixLevel base) (.mark .notNull :: tokens) node rest
  | member :
    Reads (.chain suffixLevel ⟨.member base name false, none⟩) tokens node rest →
      Reads (.chain suffixLevel base) (.mark .dot :: .word name :: tokens) node rest
  | safeMember :
    Reads (.chain suffixLevel ⟨.member base name true, none⟩) tokens node rest →
      Reads (.chain suffixLevel base) (.mark .safeDot :: .word name :: tokens) node rest
  | index :
    Reads (.level 0) tokens position (.mark .closeBracket :: more) →
      Reads (.chain suffixLevel ⟨.index base position, none⟩) more node rest →
        Reads (.chain suffixLevel base) (.mark .openBracket :: tokens) node rest
  | call :
    Reads (.arguments base []) tokens result more →
      Reads (.chain suffixLevel result) more node rest →
        Reads (.chain suffixLevel base) (.mark .openParen :: tokens) node rest
  | word :
    Reads .primary (.word name :: rest) ⟨.reference name, none⟩ rest
  | number :
    Reads .primary (.number text :: rest) ⟨.literal (.int text), none⟩ rest
  | constant :
    Reads .primary (.constant value :: rest) ⟨.literal value, none⟩ rest
  | parenthesized :
    Reads (.level 0) tokens node (.mark .closeParen :: rest) →
      Reads .primary (.mark .openParen :: tokens) node rest
  | conditional :
    Reads (.level 0) tokens condition (.mark .closeParen :: thenTokens) →
      Reads (.level 0) thenTokens thenValue (.elseWord :: elseTokens) →
        Reads (.level 0) elseTokens elseValue rest →
          Reads .primary (.ifWord :: .mark .openParen :: tokens)
            ⟨.ifExpr condition thenValue elseValue, none⟩ rest
  | noArguments :
    Reads (.arguments callee []) (.mark .closeParen :: rest) ⟨.call callee [] none, none⟩ rest
  | lastArgument :
    Reads (.level 0) (splitName tokens).2 value (.mark .closeParen :: rest) →
      Reads (.arguments callee args) tokens
        ⟨.call callee (args ++ [⟨(splitName tokens).1, value⟩]) none, none⟩ rest
  | nextArgument :
    Reads (.level 0) (splitName tokens).2 value (.mark .comma :: more) →
      Reads (.arguments callee (args ++ [⟨(splitName tokens).1, value⟩])) more node rest →
        Reads (.arguments callee args) tokens node rest

/-- The text is an expression, written for the tree. -/
def Parses (text : String) (tree : Node) : Prop :=
  ∃ tokens, Lexes text.toList tokens ∧ Reads (.level 0) tokens tree []

/-! ## There is one way to read -/

/-- No expression begins with a closing parenthesis. -/
theorem Reads.head?_ne_closeParen (h : Reads (.level l) tokens node rest) :
    tokens.head? ≠ some (.mark .closeParen) := by
  generalize hplace : Place.level l = place at h
  induction h generalizing l with
  | suffixed h => cases h <;> simp
  | level _ _ _ ih => exact ih rfl
  | sign hop => grind [Token.unaryOp?]
  | _ => cases hplace

/-- A suffixed operand has no sign before it. -/
theorem Reads.unaryOp?_eq_none (h : Reads (.level suffixLevel) (token :: tokens) node rest) :
    token.unaryOp? = none := by
  cases h with
  | level hl => exact absurd hl (Nat.lt_irrefl _)
  | suffixed h => cases h <;> rfl

attribute [local grind] Token.unaryOp? Token.binaryOp? Token.level? splitName signLevel suffixLevel
attribute [local grind →] Reads.head?_ne_closeParen Reads.unaryOp?_eq_none

/-- In each place the next token tells the ways to go on apart. -/
theorem Reads.unique (h : Reads place tokens node rest) (h' : Reads place tokens node' rest') :
    node = node' ∧ rest = rest' := by
  induction h generalizing node' rest' <;> cases h' <;> grind

theorem Parses.unique (h : Parses text tree) (h' : Parses text tree') : tree = tree' := by
  obtain ⟨tokens, hlexes, hreads⟩ := h
  obtain ⟨tokens', hlexes', hreads'⟩ := h'
  obtain rfl := hlexes.unique hlexes'
  exact (hreads.unique hreads').1

end SwiftToKotlin.Kotlin.Grammar
