import Mathlib.Data.List.Infix
import SwiftToKotlin.Proofs.Kotlin.Delimiters
import SwiftToKotlin.Proofs.Kotlin.RoundTrip

/-!
# Texts in comments and string literals

Any text can stand in a comment or in a string literal. What is written between the delimiters of a
comment is the text with blanks added, and no two neighbours in it are a delimiter, so that the
comment ends where its last two characters are. What is written between the quotes of a literal has
no quote or dollar sign outside of escapes and no line break at all, and stands for the text by the
rules for escapes.
-/

namespace SwiftToKotlin.Kotlin

open Scanner (code)

/-! ## Comments -/

/-- What stands between the delimiters of a comment. -/
def commentBody (text : String) : List Char :=
  ' ' :: (Text.setApart '/' '*' (Text.setApart '*' '/' text.toList) ++ [' '])

theorem toList_blockComment (text : String) :
    (blockComment text).toList = '/' :: '*' :: commentBody text ++ ['*', '/'] := by
  rw [blockComment, String.toList_append, String.toList_append, String.toList_ofList, commentBody]
  simp

theorem flat_written_comment (text : String) (range) :
    (Node.comment text range).written.statement.flat =
      '/' :: '*' :: commentBody text ++ ['*', '/'] := by
  rw [Node.comment, Node.written_mk, ← toList_blockComment]
  exact Fragment.flat_ofString _

/-- Setting characters apart adds blanks and nothing else. -/
theorem filter_setApart (ha : a ≠ ' ') (hb : b ≠ ' ') (text) :
    (Text.setApart a b text).filter (· != ' ') = text.filter (· != ' ') := by
  fun_induction Text.setApart a b text with
  | case1 => rfl
  | case2 => rfl
  | case3 c d cs hpair ih =>
    obtain ⟨rfl, rfl⟩ := hpair
    simp [ha, hb, ih]
  | case4 c d cs _ ih =>
    rw [List.filter_cons, ih]
    by_cases hblank : c = ' ' <;> simp [hblank]

theorem filter_commentBody (text : String) :
    (commentBody text).filter (· != ' ') = text.toList.filter (· != ' ') := by
  have hinside : (Text.setApart '/' '*' (Text.setApart '*' '/' text.toList)).filter (· != ' ') =
      text.toList.filter (· != ' ') := by
    rw [filter_setApart (by decide) (by decide), filter_setApart (by decide) (by decide)]
  simpa [commentBody] using hinside

theorem apart_blank (c : Char) : Apart c ' ' ∧ Apart ' ' c := by
  simp [Apart]

/-- No two neighbours in the body open or close a comment, nor does its last character with the one
behind it. -/
theorem isChain_commentBody (text : String) (next : Char) :
    (commentBody text ++ [next]).IsChain Apart := by
  have hinside := isChain_apart text.toList
  have hends : ([' ', next] : List Char).IsChain Apart :=
    .cons_cons (apart_blank next).2 (.singleton next)
  rw [commentBody, List.cons_append, List.append_assoc, List.isChain_cons, List.isChain_append]
  refine ⟨fun c _ => (apart_blank c).2, hinside, hends, ?_⟩
  intro c _ d hd
  obtain rfl : ' ' = d := by simpa using hd
  exact (apart_blank c).1

theorem not_infix_of_isChain (h : text.IsChain R) {d : Char} (hpair : ¬ R c d) :
    ¬ [c, d] <:+: text := by
  intro hinfix
  have hchain : [c, d].IsChain R := h.infix hinfix
  exact hpair (List.isChain_cons_cons.1 hchain).1

/-- Up to its last character the comment is open, and no other one in it. -/
theorem exists_leads_of_prefix (h : before <+: commentBody text ++ ['*']) (stack) :
    ∃ last, Leads ('/' :: '*' :: before) (code stack) ⟨.comment 0, stack, last⟩ := by
  have hchain : before.IsChain Apart := List.IsChain.prefix (isChain_commentBody text '*') h
  obtain ⟨last, hlast⟩ := exists_leads_in_comment none hchain stack
  have hopen : Leads ['/', '*'] (code stack) ⟨.comment 0, stack, none⟩ := rfl
  exact ⟨last, hopen.append hlast⟩

/-! ## String literals -/

/-- The characters of a literal that are not part of an escape. A backslash at the end escapes
nothing. -/
def unescaped : List Char → List Char
  | '\\' :: _ :: rest => unescaped rest
  | c :: rest => c :: unescaped rest
  | [] => []

/-- What a backslash and the character behind it stand for. -/
def escapeMeaning? : Char → Option Char
  | 't' => some '\t'
  | 'b' => some '\x08'
  | 'n' => some '\n'
  | 'r' => some '\r'
  | '\x27' => some '\x27'
  | '"' => some '"'
  | '\\' => some '\\'
  | '$' => some '$'
  | _ => none

def hexDigit? (c : Char) : Option Nat :=
  if c.isDigit then some (c.toNat - '0'.toNat)
  else if 'a' ≤ c ∧ c ≤ 'f' then some (c.toNat - 'a'.toNat + 10)
  else if 'A' ≤ c ∧ c ≤ 'F' then some (c.toNat - 'A'.toNat + 10)
  else none

/-- The character of a code. Half of a surrogate pair is none. -/
def charOfCode? (code : Nat) : Option Char :=
  if code.isValidChar then some (Char.ofNat code) else none

/-- The text that the inside of a literal stands for: an escape is a backslash with one character,
or with `u` and four hexadecimal digits. -/
def decodeEscapes : List Char → Option (List Char)
  | [] => some []
  | '\\' :: 'u' :: a :: b :: c :: d :: rest => do
    let digits ← [a, b, c, d].mapM hexDigit?
    let char ← charOfCode? (digits.foldl (16 * · + ·) 0)
    return char :: (← decodeEscapes rest)
  | '\\' :: c :: rest => do return (← escapeMeaning? c) :: (← decodeEscapes rest)
  | ['\\'] => none
  | c :: rest => do return c :: (← decodeEscapes rest)

theorem toList_stringLiteral (text : String) :
    (stringLiteral text).toList = '"' :: (text.toList.flatMap escapeChar ++ ['"']) := by
  rw [stringLiteral, String.toList_append, String.toList_append, escaped, String.toList_ofList]
  simp

theorem flat_written_string (text : String) (range) :
    (Node.literal (.string text) range).written.value.flat =
      '"' :: (text.toList.flatMap escapeChar ++ ['"']) := by
  rw [Node.literal, Node.written_mk, ← toList_stringLiteral]
  exact Fragment.flat_ofString _

/-- A character is written as itself or as an escape that means it. -/
theorem escapeChar_cases (c : Char) :
    (c ∉ ['"', '\\', '$', '\n', '\r'] ∧ escapeChar c = [c]) ∨
      ∃ e, e ∉ ['u', '\n', '\r'] ∧ escapeChar c = ['\\', e] ∧ escapeMeaning? e = some c := by
  unfold escapeChar
  split
  iterate 6 exact .inr ⟨_, by decide, rfl, rfl⟩
  · next hquote hbackslash hline hreturn _ hdollar =>
    have hplain : c ∉ ['"', '\\', '$', '\n', '\r'] := by
      simp only [List.mem_cons, List.not_mem_nil, or_false, not_or]
      exact ⟨hquote, hbackslash, hdollar, hline, hreturn⟩
    exact .inl ⟨hplain, rfl⟩

theorem mem_unescaped_flatMap {text : List Char} (h : c ∈ unescaped (text.flatMap escapeChar)) :
    c ∉ ['"', '$', '\\'] := by
  induction text with
  | nil => simp [unescaped] at h
  | cons d rest ih =>
    rw [List.flatMap_cons] at h
    rcases escapeChar_cases d with ⟨hd, hwritten⟩ | ⟨e, -, hwritten, -⟩
    · have hbackslash : d ≠ '\\' := by
        rintro rfl
        simp at hd
      rw [hwritten, List.singleton_append, unescaped.eq_2 _ _ (by simp [hbackslash])] at h
      rcases List.mem_cons.1 h with rfl | hrest
      · simp_all
      · exact ih hrest
    · rw [hwritten] at h
      exact ih h

theorem line_break_not_mem_flatMap (text : List Char) :
    '\n' ∉ text.flatMap escapeChar ∧ '\r' ∉ text.flatMap escapeChar := by
  have hchar : ∀ c, '\n' ∉ escapeChar c ∧ '\r' ∉ escapeChar c := by
    intro c
    rcases escapeChar_cases c with ⟨hc, hwritten⟩ | ⟨e, he, hwritten, -⟩
    · rw [hwritten]
      grind
    · rw [hwritten]
      grind
  constructor
  · intro hmem
    obtain ⟨c, -, hc⟩ := List.mem_flatMap.1 hmem
    exact (hchar c).1 hc
  · intro hmem
    obtain ⟨c, -, hc⟩ := List.mem_flatMap.1 hmem
    exact (hchar c).2 hc

theorem decodeEscapes_flatMap (text) : decodeEscapes (text.flatMap escapeChar) = some text := by
  induction text with
  | nil => rfl
  | cons c rest ih =>
    rcases escapeChar_cases c with ⟨hc, hwritten⟩ | ⟨e, he, hwritten, hmeaning⟩
    · have hbackslash : c ≠ '\\' := by
        rintro rfl
        simp at hc
      simp [hwritten, decodeEscapes, hbackslash, ih]
    · have hcode : e ≠ 'u' := by
        rintro rfl
        simp at he
      simp [hwritten, decodeEscapes, hcode, hmeaning, ih]

/-! ## Both -/

/-- A text never leaves the comment or the literal that it is written in. The comment is the only
one that its characters open, and it closes with the last of them; the literal has nothing between
its quotes that ends it or starts a template, and stands for the text. -/
theorem text_stays_enclosed (text : String) (range : Option SourceRange) :
    ((Node.comment text range).written.statement.flat =
          '/' :: '*' :: commentBody text ++ ['*', '/'] ∧
        (commentBody text).filter (· != ' ') = text.toList.filter (· != ' ') ∧
        ¬ ['*', '/'] <:+: commentBody text ∧ ¬ ['/', '*'] <:+: commentBody text ∧
        ∀ stack,
          (∀ before, before <+: commentBody text ++ ['*'] →
            ∃ last, Leads ('/' :: '*' :: before) (code stack) ⟨.comment 0, stack, last⟩) ∧
          Leads ('/' :: '*' :: commentBody text ++ ['*', '/']) (code stack) (code stack)) ∧
      ∃ inside, (Node.literal (.string text) range).written.value.flat =
          '"' :: (inside ++ ['"']) ∧
        (∀ c ∈ unescaped inside, c ∉ ['"', '$', '\\']) ∧
        ('\n' ∉ inside ∧ '\r' ∉ inside) ∧
        decodeEscapes inside = some text.toList := by
  have hbody : (commentBody text).IsChain Apart :=
    List.IsChain.prefix (isChain_commentBody text ' ') (List.prefix_append _ _)
  constructor
  · refine ⟨flat_written_comment text range, filter_commentBody text, ?_, ?_, ?_⟩
    · exact not_infix_of_isChain hbody (by simp [Apart])
    · exact not_infix_of_isChain hbody (by simp [Apart])
    · intro stack
      constructor
      · intro before h
        exact exists_leads_of_prefix h stack
      · rw [← toList_blockComment]
        exact balanced_blockComment text stack
  · refine ⟨text.toList.flatMap escapeChar, flat_written_string text range, ?_, ?_, ?_⟩
    · intro c hc
      exact mem_unescaped_flatMap hc
    · exact line_break_not_mem_flatMap text.toList
    · exact decodeEscapes_flatMap text.toList

end SwiftToKotlin.Kotlin
