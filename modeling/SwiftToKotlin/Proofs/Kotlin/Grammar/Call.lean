import SwiftToKotlin.Proofs.Kotlin.Grammar.Token

/-!
# The grammar of calls

Expressions made of names, members, calls and lambdas. A lambda behind an argument list belongs to
the call with these arguments. Behind any other expression it is the only argument of a call of that
expression. It may begin on the next line, as may the point before a member, while a list of
arguments begins on the line of its callee. The statements of a lambda stand on lines of their own.
There is at most one way to read a text.
-/

namespace SwiftToKotlin.Kotlin.CallGrammar

open Grammar (Token Mark nextToken?)

/-! ## Symbols -/

/-- A token of expressions, or what the layout of lambdas adds to these. -/
inductive Symbol
  | token (token : Token)
  | openBrace
  | closeBrace
  | arrow
  | lineBreak

namespace Symbol

@[match_pattern]
abbrev word (name : String) : Symbol :=
  .token (.word name)

@[match_pattern]
abbrev mark (mark : Mark) : Symbol :=
  .token (.mark mark)

/-- Whether an expression can begin with the symbol. -/
def isInitial : Symbol → Bool
  | word _ | mark .openParen | openBrace => true
  | _ => false

/-- Whether the symbol goes on with an expression on the lines above it. -/
def isSuffix : Symbol → Bool
  | mark .dot | mark .safeDot | openBrace => true
  | _ => false

/-- Whether the symbol goes on with an expression on its line. -/
def isSuffixInLine : Symbol → Bool
  | mark .openParen => true
  | symbol => symbol.isSuffix

/-- Whether a statement can end before the symbol. -/
def endsStatement : Symbol → Bool
  | closeBrace | lineBreak => true
  | _ => false

end Symbol

def readLayout : List Char → Option (Symbol × List Char)
  | '\x7b' :: rest => some (.openBrace, rest)
  | '\x7d' :: rest => some (.closeBrace, rest)
  | '-' :: '>' :: rest => some (.arrow, rest)
  | '\n' :: rest => some (.lineBreak, rest)
  | _ => none

/-- The symbol at the beginning of the text and what follows it. -/
def nextSymbol? (text : List Char) : Option (Symbol × List Char) :=
  (readLayout text).or ((nextToken? text).map fun (token, rest) => (.token token, rest))

/-- The text falls into the symbols. -/
inductive Lexes : List Char → List Symbol → Prop
  | nil : Lexes [] []
  | blank :
    Lexes text symbols → Lexes (' ' :: text) symbols
  | symbol :
    nextSymbol? text = some (symbol, rest) → Lexes rest symbols → Lexes text (symbol :: symbols)

theorem nextSymbol?_nil : nextSymbol? [] = none :=
  rfl

theorem nextSymbol?_blank (text) : nextSymbol? (' ' :: text) = none :=
  rfl

theorem Lexes.unique (h : Lexes text symbols) (h' : Lexes text symbols') : symbols = symbols' := by
  induction h generalizing symbols' <;> cases h' <;> grind [nextSymbol?_nil, nextSymbol?_blank]

/-! ## Reading -/

def skipBreaks : List Symbol → List Symbol
  | .lineBreak :: symbols => skipBreaks symbols
  | symbols => symbols

/-- Whether an expression goes on with the symbols behind it. -/
def goesOn (symbols : List Symbol) : Bool :=
  symbols.head?.any Symbol.isSuffixInLine || (skipBreaks symbols).head?.any Symbol.isSuffix

/-- The name of an argument, if one is given, and the symbols of its value. -/
def splitName : List Symbol → Option String × List Symbol
  | .word name :: .mark .equals :: symbols => (some name, symbols)
  | symbols => (none, symbols)

def readNames : List Symbol → Option (List String × List Symbol)
  | .word name :: .arrow :: symbols => some ([name], symbols)
  | .word name :: .mark .comma :: symbols =>
    (readNames symbols).map fun (names, symbols) => (name :: names, symbols)
  | _ => none

/-- The parameters of a lambda, if they are given, and the symbols of its body. -/
def splitNames (symbols : List Symbol) : List String × List Symbol :=
  (readNames symbols).getD ([], symbols)

/-- What is read: an expression; what it begins with; a lambda; what goes on with an expression; the
arguments of a call behind those before; what goes on with a call behind its arguments; the
statements of a lambda behind those before. -/
inductive Place
  | expression
  | primary
  | lambda
  | suffixes (base : Node)
  | arguments (callee : Node) (args : List (Argument Node))
  | trailing (callee : Node) (args : List (Argument Node))
  | statements (names : List String) (body : List Node)

/-- `Reads place symbols node rest`: the symbols begin with the `node`, and the `rest` follows.
Nodes have no place in a source. -/
inductive Reads : Place → List Symbol → Node → List Symbol → Prop
  | suffixed :
    Reads .primary symbols base more → Reads (.suffixes base) more node rest →
      Reads .expression symbols node rest
  | word :
    Reads .primary (.word name :: rest) ⟨.reference name, none⟩ rest
  | parenthesized :
    Reads .expression symbols node (.mark .closeParen :: rest) →
      Reads .primary (.mark .openParen :: symbols) node rest
  | literal :
    Reads .lambda (.openBrace :: symbols) node rest →
      Reads .primary (.openBrace :: symbols) node rest
  | lambda :
    Reads (.statements (splitNames symbols).1 []) (splitNames symbols).2 node rest →
      Reads .lambda (.openBrace :: symbols) node rest
  | stop (h : goesOn symbols = false) :
    Reads (.suffixes base) symbols base symbols
  | member (h : skipBreaks symbols = .mark .dot :: .word name :: more) :
    Reads (.suffixes ⟨.member base name false, none⟩) more node rest →
      Reads (.suffixes base) symbols node rest
  | safeMember (h : skipBreaks symbols = .mark .safeDot :: .word name :: more) :
    Reads (.suffixes ⟨.member base name true, none⟩) more node rest →
      Reads (.suffixes base) symbols node rest
  | applied :
    Reads .lambda (skipBreaks symbols) lambda more →
      Reads (.suffixes ⟨.call base [] (some lambda), none⟩) more node rest →
        Reads (.suffixes base) symbols node rest
  | called :
    Reads (.arguments base []) symbols node rest →
      Reads (.suffixes base) (.mark .openParen :: symbols) node rest
  | noArguments :
    Reads (.trailing callee []) symbols node rest →
      Reads (.arguments callee []) (.mark .closeParen :: symbols) node rest
  | lastArgument :
    Reads .expression (splitName symbols).2 value (.mark .closeParen :: more) →
      Reads (.trailing callee (args ++ [⟨(splitName symbols).1, value⟩])) more node rest →
        Reads (.arguments callee args) symbols node rest
  | nextArgument :
    Reads .expression (splitName symbols).2 value (.mark .comma :: more) →
      Reads (.arguments callee (args ++ [⟨(splitName symbols).1, value⟩])) more node rest →
        Reads (.arguments callee args) symbols node rest
  | trailing :
    Reads .lambda (skipBreaks symbols) lambda more →
      Reads (.suffixes ⟨.call callee args (some lambda), none⟩) more node rest →
        Reads (.trailing callee args) symbols node rest
  | noTrailing (h : (skipBreaks symbols).head? ≠ some .openBrace) :
    Reads (.suffixes ⟨.call callee args none, none⟩) symbols node rest →
      Reads (.trailing callee args) symbols node rest
  | close (h : skipBreaks symbols = .closeBrace :: rest) :
    Reads (.statements names body) symbols ⟨.lambda names body, none⟩ rest
  | statement (hends : more.head?.any Symbol.endsStatement = true) :
    Reads .expression (skipBreaks symbols) statement more →
      Reads (.statements names (body ++ [statement])) more node rest →
        Reads (.statements names body) symbols node rest

/-- The text is an expression, written for the tree, with nothing but line breaks behind it. -/
def Parses (text : String) (tree : Node) : Prop :=
  ∃ symbols rest, Lexes text.toList symbols ∧ Reads .expression symbols tree rest ∧
    skipBreaks rest = []

/-! ## There is one way to read -/

theorem Reads.head?_lambda (h : Reads .lambda symbols node rest) :
    symbols.head? = some .openBrace := by
  cases h
  rfl

theorem Reads.head?_expression (h : Reads .expression symbols node rest) :
    symbols.head?.any Symbol.isInitial = true := by
  cases h with
  | suffixed h => cases h <;> rfl

attribute [local grind] skipBreaks goesOn splitName Symbol.isSuffix Symbol.isSuffixInLine
  Symbol.isInitial
attribute [local grind →] Reads.head?_lambda Reads.head?_expression

/-- In each place the next symbol, behind line breaks where these are skipped, tells the ways to go
on apart. -/
theorem Reads.unique (h : Reads place symbols node rest) (h' : Reads place symbols node' rest') :
    node = node' ∧ rest = rest' := by
  induction h generalizing node' rest' <;> cases h' <;> grind

theorem Parses.unique (h : Parses text tree) (h' : Parses text tree') : tree = tree' := by
  obtain ⟨symbols, rest, hlexes, hreads, -⟩ := h
  obtain ⟨symbols', rest', hlexes', hreads', -⟩ := h'
  obtain rfl := hlexes.unique hlexes'
  exact (hreads.unique hreads').1

end SwiftToKotlin.Kotlin.CallGrammar
