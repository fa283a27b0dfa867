import SwiftToKotlin.Kotlin.Source
import SwiftToKotlin.Proofs.Kotlin.Grammar.Type
import SwiftToKotlin.Text.Numeral

/-!
# Tokens

The text of an expression falls into tokens, blanks aside. A token is as long as it can be: a name
ends where no further character of a name follows, a number takes a fraction only if a digit stands
behind the point, and of two symbols that begin alike the longer one is read. The keyword of a cast
and the type behind it are one token.
-/

namespace SwiftToKotlin.Kotlin.Grammar

open Text (isAlphabetic isNameChar isDecimal)

/-- The symbols that are no operators on values. -/
inductive Mark
  | openParen
  | closeParen
  | openBracket
  | closeBracket
  | comma
  | equals
  | dot
  | safeDot
  | notNull

inductive Token
  | word (name : String)
  | number (text : String)
  | constant (value : Literal)
  | ifWord
  | elseWord
  | cast (kind : CastKind) (ty : Ty)
  | mark (mark : Mark)
  | operator (symbol : String)

/-! ## Reading a token -/

/-- Words that stand for no name unless they are put in backticks. -/
def reserved : List String :=
  ["as", "else", "false", "if", "is", "null", "true"]

def readCast (kind : CastKind) (text : List Char) : Option (Token × List Char) :=
  (readType (text.length + 1) text).map fun (ty, rest) => (.cast kind ty, rest)

def readReserved : String → List Char → Option (Token × List Char)
  | "as", '?' :: ' ' :: rest => readCast .safe rest
  | "as", ' ' :: rest => readCast .unchecked rest
  | "is", ' ' :: rest => readCast .check rest
  | "if", rest => some (.ifWord, rest)
  | "else", rest => some (.elseWord, rest)
  | "true", rest => some (.constant (.bool true), rest)
  | "false", rest => some (.constant (.bool false), rest)
  | "null", rest => some (.constant .null, rest)
  | _, _ => none

def readWord (text : List Char) : Option (Token × List Char) :=
  let (name, rest) := text.span isNameChar
  if String.ofList name ∈ reserved then readReserved (String.ofList name) rest
  else some (.word (String.ofList name), rest)

/-- A point with the digits behind it, if there are any. -/
def takeFraction : List Char → List Char × List Char
  | '.' :: rest =>
    match rest.span Char.isDigit with
    | ([], _) => ([], '.' :: rest)
    | (digits, rest) => ('.' :: digits, rest)
  | rest => ([], rest)

def takeNumber (text : List Char) : List Char × List Char :=
  let (whole, rest) := text.span Char.isDigit
  let (fraction, rest) := takeFraction rest
  (whole ++ fraction, rest)

def unescapeChar : Char → Option Char
  | 'n' => some '\n'
  | 'r' => some '\r'
  | 't' => some '\t'
  | '"' => some '"'
  | '\\' => some '\\'
  | '$' => some '$'
  | _ => none

/-- The characters up to the closing quote. A dollar sign would begin a template. -/
def unescape : List Char → Option (List Char × List Char)
  | [] => none
  | '"' :: rest => some ([], rest)
  | '$' :: _ => none
  | '\\' :: c :: rest =>
    (unescapeChar c).bind fun c => (unescape rest).map fun (value, rest) => (c :: value, rest)
  | c :: rest => (unescape rest).map fun (value, rest) => (c :: value, rest)

/-- A name in backticks behind the first of them. -/
def readQuotedName (text : List Char) : Option (Token × List Char) :=
  match text.span (· != '\x60') with
  | (name, _ :: rest) => some (.word (String.ofList ('\x60' :: name ++ ['\x60'])), rest)
  | (_, []) => none

/-- The symbols, each before those that it begins with. -/
def symbols : List (String × Token) :=
  [("===", .operator "==="), ("!==", .operator "!=="), ("==", .operator "=="),
    ("!=", .operator "!="), ("!!", .mark .notNull), ("<=", .operator "<="), (">=", .operator ">="),
    ("&&", .operator "&&"), ("||", .operator "||"), ("?.", .mark .safeDot), ("?:", .operator "?:"),
    ("..", .operator ".."), ("(", .mark .openParen), (")", .mark .closeParen),
    ("[", .mark .openBracket), ("]", .mark .closeBracket), (",", .mark .comma),
    ("=", .mark .equals), (".", .mark .dot), ("!", .operator "!"), ("*", .operator "*"),
    ("/", .operator "/"), ("%", .operator "%"), ("+", .operator "+"), ("-", .operator "-"),
    ("<", .operator "<"), (">", .operator ">")]

def readSymbol (text : List Char) : Option (Token × List Char) :=
  (symbols.find? fun symbol => symbol.1.toList.isPrefixOf text).map fun symbol =>
    (symbol.2, text.drop symbol.1.toList.length)

def isNameStart (c : Char) : Bool :=
  isAlphabetic c || c == '_'

/-- The token at the beginning of the text and what follows it. -/
def nextToken? : List Char → Option (Token × List Char)
  | [] => none
  | c :: rest =>
    if isNameStart c then readWord (c :: rest)
    else if c.isDigit then
      let (digits, rest) := takeNumber (c :: rest)
      some (.number (String.ofList digits), rest)
    else if c = '"' then
      (unescape rest).map fun (value, rest) => (.constant (.string (String.ofList value)), rest)
    else if c = '\x60' then readQuotedName rest
    else readSymbol (c :: rest)

/-- The text falls into the tokens. -/
inductive Lexes : List Char → List Token → Prop
  | nil : Lexes [] []
  | blank : Lexes text tokens → Lexes (' ' :: text) tokens
  | token :
    nextToken? text = some (token, rest) → Lexes rest tokens → Lexes text (token :: tokens)

theorem nextToken?_nil : nextToken? [] = none :=
  rfl

theorem nextToken?_blank (text) : nextToken? (' ' :: text) = none :=
  rfl

theorem Lexes.unique (h : Lexes text tokens) (h' : Lexes text tokens') : tokens = tokens' := by
  induction h generalizing tokens' <;> cases h' <;> grind [nextToken?_nil, nextToken?_blank]

/-! ## Brackets and keywords -/

section Fixed

variable (h : Lexes text tokens)

include h

theorem Lexes.openParen : Lexes ('(' :: text) (.mark .openParen :: tokens) :=
  .token rfl h

theorem Lexes.closeParen : Lexes (')' :: text) (.mark .closeParen :: tokens) :=
  .token rfl h

theorem Lexes.openBracket : Lexes ('[' :: text) (.mark .openBracket :: tokens) :=
  .token rfl h

theorem Lexes.closeBracket : Lexes (']' :: text) (.mark .closeBracket :: tokens) :=
  .token rfl h

theorem Lexes.comma : Lexes (',' :: ' ' :: text) (.mark .comma :: tokens) :=
  .token rfl (.blank h)

theorem Lexes.equals : Lexes (' ' :: '=' :: ' ' :: text) (.mark .equals :: tokens) :=
  .blank (.token rfl (.blank h))

theorem Lexes.notNull : Lexes ('!' :: '!' :: text) (.mark .notNull :: tokens) :=
  .token rfl h

theorem Lexes.safeDot : Lexes ('?' :: '.' :: text) (.mark .safeDot :: tokens) :=
  .token rfl h

theorem Lexes.ifWord : Lexes ('i' :: 'f' :: ' ' :: text) (.ifWord :: tokens) :=
  .token rfl (.blank h)

theorem Lexes.elseWord :
    Lexes (' ' :: 'e' :: 'l' :: 's' :: 'e' :: ' ' :: text) (.elseWord :: tokens) :=
  .blank (.token rfl (.blank h))

end Fixed

theorem nextToken?_dot (hc : c ≠ '.') (rest) :
    nextToken? ('.' :: c :: rest) = some (.mark .dot, c :: rest) := by
  show readSymbol ('.' :: c :: rest) = _
  simp [readSymbol, symbols, hc.symm]

/-! ## Names -/

/-- An identifier that is no reserved word, or any name in backticks. -/
def IsName (name : String) : Prop :=
  (isPlainIdentifier name = true ∧ name ∉ reserved) ∨
    ∃ inner, name.toList = '\x60' :: inner ++ ['\x60'] ∧ '\x60' ∉ inner

/-- The text does not go on with the characters of a name. -/
def EndsIdentifier (rest : List Char) : Prop :=
  ∀ c ∈ rest.head?, isNameChar c = false

theorem isNameChar_of_isNameStart (h : isNameStart c = true) : isNameChar c = true := by
  rcases Bool.or_eq_true _ _ |>.mp h with h | h
  · simp [isNameChar, Text.isAlphanumeric, h]
  · simp [isNameChar, h]

theorem exists_cons_of_isPlainIdentifier (h : isPlainIdentifier name = true) :
    ∃ c cs, name.toList = c :: cs ∧ isNameStart c = true ∧ ∀ d ∈ c :: cs, isNameChar d = true := by
  rw [isPlainIdentifier] at h
  split at h
  · cases h
  · next c cs hname =>
    obtain ⟨hc, hcs⟩ := (Bool.and_eq_true _ _).mp h
    exact ⟨c, cs, hname, hc,
      List.forall_mem_cons.2 ⟨isNameChar_of_isNameStart hc, List.all_eq_true.1 hcs⟩⟩

theorem nextToken?_identifier (h : isPlainIdentifier name = true) (hrest : EndsIdentifier rest) :
    nextToken? (name.toList ++ rest) =
      if name ∈ reserved then readReserved name rest else some (.word name, rest) := by
  obtain ⟨c, cs, hname, hc, hchars⟩ := exists_cons_of_isPlainIdentifier h
  have hspan : (c :: (cs ++ rest)).span isNameChar = (c :: cs, rest) := span_of_ends hchars hrest
  have hback : String.ofList (c :: cs) = name := by rw [← hname, String.ofList_toList]
  rw [hname, List.cons_append, nextToken?, if_pos hc, readWord, hspan]
  simp only [hback]

theorem nextToken?_quotedName {inner : List Char}
    (hname : name.toList = '\x60' :: inner ++ ['\x60']) (hinner : '\x60' ∉ inner) (rest) :
    nextToken? (name.toList ++ rest) = some (.word name, rest) := by
  have hspan : (inner ++ '\x60' :: rest).span (· != '\x60') = (inner, '\x60' :: rest) := by
    refine span_of_ends (fun d hd => ?_) (by simp)
    simpa using fun heq : d = '\x60' => hinner (heq ▸ hd)
  have htext : name.toList ++ rest = '\x60' :: (inner ++ '\x60' :: rest) := by simp [hname]
  have hread : nextToken? ('\x60' :: (inner ++ '\x60' :: rest)) =
      readQuotedName (inner ++ '\x60' :: rest) := rfl
  rw [htext, hread, readQuotedName, hspan]
  simp only [← hname, String.ofList_toList]

theorem nextToken?_name (h : IsName name) (hrest : EndsIdentifier rest) :
    nextToken? (name.toList ++ rest) = some (.word name, rest) := by
  rcases h with ⟨hplain, hreserved⟩ | ⟨inner, hname, hinner⟩
  · rw [nextToken?_identifier hplain hrest, if_neg hreserved]
  · exact nextToken?_quotedName hname hinner rest

/-! ## Numbers -/

/-- Digits with an optional fraction. -/
def IsNumeral (text : List Char) : Prop :=
  isDecimal text = true ∨ ∃ whole fraction, isDecimal whole = true ∧ isDecimal fraction = true ∧
    text = whole ++ '.' :: fraction

/-- The text goes on neither with characters of a name nor with a fraction. -/
def EndsWord (rest : List Char) : Prop :=
  EndsIdentifier rest ∧ ∀ c more, rest = '.' :: c :: more → c.isDigit = false

theorem toNat_of_isDigit {c : Char} (h : c.isDigit = true) : 48 ≤ c.toNat ∧ c.toNat ≤ 57 := by
  simpa [Char.isDigit, UInt32.le_iff_toNat_le] using h

theorem isNameStart_of_isDigit (h : c.isDigit = true) : isNameStart c = false := by
  obtain ⟨hlower, hupper⟩ := toNat_of_isDigit h
  have hascii : c.toNat < 128 := by omega
  have hunderscore : c ≠ '_' := by
    rintro rfl
    cases h
  have halpha : c.isAlpha = false := by
    change (decide (65 ≤ c.val ∧ c.val ≤ 90) ||
      (decide (97 ≤ c.val) && decide (c.val ≤ 122))) = false
    simp [UInt32.le_iff_toNat_le]
    omega
  simp [isNameStart, isAlphabetic, hascii, halpha, hunderscore]

theorem isNameChar_of_isDigit (h : c.isDigit = true) : isNameChar c = true := by
  have hascii : c.toNat < 128 := Nat.lt_of_le_of_lt (toNat_of_isDigit h).2 (by decide)
  simp [isNameChar, Text.isAlphanumeric, Text.isNumeric, hascii, h]

/-- What a name begins with, which is neither a digit nor a part of a symbol. -/
theorem IsName.exists_cons (h : IsName name) :
    ∃ c cs, name.toList = c :: cs ∧ c.isDigit = false ∧ c ∉ ['.', '=', '!'] := by
  rcases h with ⟨hplain, -⟩ | ⟨inner, hname, -⟩
  · obtain ⟨c, cs, hname, hc, -⟩ := exists_cons_of_isPlainIdentifier hplain
    refine ⟨c, cs, hname, ?_, ?_⟩
    · by_contra hdigit
      rw [isNameStart_of_isDigit (eq_true_of_ne_false hdigit)] at hc
      cases hc
    · intro hmem
      simp only [List.mem_cons, List.not_mem_nil, or_false] at hmem
      rcases hmem with rfl | rfl | rfl <;> cases hc
  · exact ⟨'\x60', inner ++ ['\x60'], hname, by decide, by decide⟩

theorem EndsIdentifier.isDigit (h : EndsIdentifier rest) : ∀ c ∈ rest.head?, c.isDigit = false := by
  intro c hc
  by_contra hdigit
  have hname := isNameChar_of_isDigit (eq_true_of_ne_false hdigit)
  rw [h c hc] at hname
  cases hname

theorem span_digits (h : isDecimal digits = true) (hrest : ∀ c ∈ rest.head?, c.isDigit = false) :
    (digits ++ rest).span Char.isDigit = (digits, rest) :=
  span_of_ends (List.all_eq_true.1 ((Bool.and_eq_true _ _).mp h).2) hrest

theorem takeFraction_of_endsWord (h : EndsWord rest) : takeFraction rest = ([], rest) := by
  unfold takeFraction
  split
  next more =>
    have hmore : more.span Char.isDigit = ([], more) := by
      refine span_of_ends (List.forall_mem_nil _) fun c hc => ?_
      cases more with
      | nil => cases hc
      | cons d more =>
        cases hc
        exact h.2 _ more rfl
    rw [hmore]
  · rfl

theorem takeFraction_of_isDecimal (h : isDecimal digits = true) (hrest : EndsWord rest) :
    takeFraction ('.' :: (digits ++ rest)) = ('.' :: digits, rest) := by
  rw [takeFraction, span_digits h hrest.1.isDigit]
  cases digits with
  | nil => cases h
  | cons c digits => rfl

theorem takeNumber_of_isNumeral (h : IsNumeral text) (hrest : EndsWord rest) :
    takeNumber (text ++ rest) = (text, rest) := by
  rcases h with h | ⟨whole, fraction, hwhole, hfraction, rfl⟩
  · rw [takeNumber, span_digits h hrest.1.isDigit]
    simp [takeFraction_of_endsWord hrest]
  · rw [takeNumber, List.append_assoc, span_digits hwhole (by simp)]
    simp [takeFraction_of_isDecimal hfraction hrest]

theorem IsNumeral.exists_cons (h : IsNumeral text) : ∃ c cs, text = c :: cs ∧ c.isDigit = true := by
  have first {digits : List Char} (h : isDecimal digits = true) :
      ∃ c cs, digits = c :: cs ∧ c.isDigit = true := by
    cases digits with
    | nil => cases h
    | cons c cs => exact ⟨c, cs, rfl, by simp_all [isDecimal]⟩
  rcases h with h | ⟨whole, fraction, hwhole, -, rfl⟩
  · exact first h
  · obtain ⟨c, cs, rfl, hc⟩ := first hwhole
    exact ⟨c, _, rfl, hc⟩

theorem nextToken?_number (h : IsNumeral text) (hrest : EndsWord rest) :
    nextToken? (text ++ rest) = some (.number (String.ofList text), rest) := by
  obtain ⟨c, cs, rfl, hc⟩ := h.exists_cons
  have hread : takeNumber (c :: (cs ++ rest)) = (c :: cs, rest) := takeNumber_of_isNumeral h hrest
  rw [List.cons_append, nextToken?, isNameStart_of_isDigit hc, hread]
  simp [hc]

/-! ## Constants -/

theorem unescape_escapeChar (c : Char) (rest) :
    unescape (escapeChar c ++ rest) =
      (unescape rest).map fun (value, rest) => (c :: value, rest) := by
  unfold escapeChar
  split
  iterate 6 rfl
  rw [List.singleton_append, unescape] <;> simp_all

theorem unescape_escaped (text rest) :
    unescape (text.flatMap escapeChar ++ '"' :: rest) = some (text, rest) := by
  induction text with
  | nil => rfl
  | cons c text ih => rw [List.flatMap_cons, List.append_assoc, unescape_escapeChar, ih]; rfl

/-- The literals that are no numbers. -/
def IsConstant (value : Literal) : Prop :=
  ∀ text, value ≠ .int text ∧ value ≠ .double text

theorem nextToken?_constant (h : IsConstant value) (hrest : EndsIdentifier rest) :
    nextToken? (value.source.toList ++ rest) = some (.constant value, rest) := by
  cases value with
  | int text => exact absurd rfl (h text).1
  | double text => exact absurd rfl (h text).2
  | bool value => cases value <;> exact nextToken?_identifier rfl hrest
  | null => exact nextToken?_identifier rfl hrest
  | string text =>
    have hread : nextToken? ('"' :: (text.toList.flatMap escapeChar ++ '"' :: rest)) =
        (unescape (text.toList.flatMap escapeChar ++ '"' :: rest)).map fun (value, rest) =>
          (.constant (.string (String.ofList value)), rest) := rfl
    simp [Literal.source, stringLiteral, escaped, hread, unescape_escaped]

/-! ## Operators -/

def operatorToken (op : BinaryOp) : Token :=
  if isPlainIdentifier op.symbol then .word op.symbol else .operator op.symbol

theorem nextToken?_binary (op : BinaryOp) (rest) :
    nextToken? (op.symbol.toList ++ ' ' :: rest) = some (operatorToken op, ' ' :: rest) := by
  cases op <;> rfl

theorem nextToken?_unary (op : UnaryOp) (hequals : c ≠ '=') (hnot : c ≠ '!') (rest) :
    nextToken? (op.symbol.toList ++ c :: rest) = some (.operator op.symbol, c :: rest) := by
  cases op with
  | neg => rfl
  | plus => rfl
  | not =>
    show readSymbol ('!' :: c :: rest) = _
    simp [readSymbol, symbols, UnaryOp.symbol, hequals.symm, hnot.symm]

theorem nextToken?_cast (kind : CastKind) (hty : IsReadable ty) (hrest : EndsType rest) :
    nextToken? (kind.keyword.toList ++ ' ' :: (ty.display.toList ++ rest)) =
      some (.cast kind ty, rest) := by
  have hread : readCast kind (ty.display.toList ++ rest) = some (.cast kind ty, rest) := by
    have hlength : ty.display.length < (ty.display.toList ++ rest).length + 1 := by
      rw [List.length_append, String.length_toList]
      omega
    rw [readCast, (readsBack ty hty _ rest hlength).1 hrest]
    rfl
  rw [← hread]
  cases kind <;> rfl

end SwiftToKotlin.Kotlin.Grammar
