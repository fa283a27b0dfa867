import SwiftToKotlin.Dump.Token

/-!
# The words, strings and ranges of a dump

What it is for a text to be a sequence of tokens is said without the lexer: words are as long as
they can be, a string ends at its own quote, and a range at the first closing bracket. The lexer
finds exactly these tokens, and tells of a fault exactly where there are none.
-/

namespace SwiftToKotlin.Dump

/-! ## Token sequences -/

/-- What a backslash and a character stand for, where together they stand for one character. -/
def escapes : List (Char × Char) :=
  [('n', '\n'), ('t', '\t'), ('r', '\r'), ('"', '"'), ('\'', '\''), ('\\', '\\')]

/-- The characters between two quotes and the text that they stand for. -/
inductive Quotes (quote : Char) : List Char → List Char → Prop
  | nil : Quotes quote [] []
  | plain (hquote : c ≠ quote) (hescape : c ≠ '\\')
      (h : Quotes quote body value) : Quotes quote (c :: body) (c :: value)
  | escape (hc : (c, d) ∈ escapes)
      (h : Quotes quote body value) : Quotes quote ('\\' :: c :: body) (d :: value)
  | backslash (hc : ∀ d, (c, d) ∉ escapes)
      (h : Quotes quote body value) : Quotes quote ('\\' :: c :: body) ('\\' :: c :: value)

/-- The text consists of the tokens, with blanks wherever they are allowed. -/
inductive Lexes : List Char → List Token → Prop
  | nil : Lexes [] []
  | blank (hc : Text.isBlank c = true) (h : Lexes text tokens) : Lexes (c :: text) tokens
  | opening (h : Lexes text tokens) :
      Lexes ('(' :: text) (.opening :: tokens)
  | closing (h : Lexes text tokens) :
      Lexes (')' :: text) (.closing :: tokens)
  | equals (h : Lexes text tokens) :
      Lexes ('=' :: text) (.equals :: tokens)
  /-- A word goes on as far as it can. -/
  | word (hc : isWordChar c = true)
      (hmore : ∀ d ∈ more, isWordChar d = true) (hend : ∀ d ∈ text.head?, isWordChar d = false)
      (h : Lexes text tokens) :
      Lexes (c :: (more ++ text)) (.word (String.ofList (c :: more)) :: tokens)
  | quoted (hquote : quote = '"' ∨ quote = '\'') (hbody : Quotes quote body value)
      (h : Lexes text tokens) :
      Lexes (quote :: (body ++ quote :: text)) (.quoted (String.ofList value) :: tokens)
  | bracketed {inner : List Char} (hinner : ']' ∉ inner)
      (h : Lexes text tokens) :
      Lexes ('[' :: (inner ++ ']' :: text)) (.bracketed (String.ofList inner) :: tokens)

namespace Lexer

/-! ## What is left to read -/

/-- The text goes on from the mode and gives the tokens, the one that has been begun included. -/
def Continues : Mode → List Char → List Token → Prop
  | .between, text, tokens => Lexes text tokens
  | .word _ read, text, tokens =>
    ∃ more rest later, text = more ++ rest ∧ (∀ d ∈ more, isWordChar d = true) ∧
      (∀ d ∈ rest.head?, isWordChar d = false) ∧
      tokens = .word (textOf (more.reverse ++ read)) :: later ∧ Lexes rest later
  | .quoted _ quote read, text, tokens =>
    ∃ body value rest later, text = body ++ quote :: rest ∧ Quotes quote body value ∧
      tokens = .quoted (textOf (value.reverse ++ read)) :: later ∧ Lexes rest later
  | .escaped _ quote read, text, tokens =>
    ∃ c body value rest later, text = c :: (body ++ quote :: rest) ∧ Quotes quote body value ∧
      tokens = .quoted (textOf (value.reverse ++ (unescape c ++ read))) :: later ∧
        Lexes rest later
  | .bracketed _ read, text, tokens =>
    ∃ inner rest later, text = inner ++ ']' :: rest ∧ ']' ∉ inner ∧
      tokens = .bracketed (textOf (inner.reverse ++ read)) :: later ∧ Lexes rest later
  | .stopped _ _, _, _ => False

/-! ## One step of the lexer -/

/-- What has been read and what is left give the tokens together. -/
def Yields (state : State) (text : List Char) (tokens : List Token) : Prop :=
  ∃ later, Continues state.mode text later ∧
    tokens = state.lexemes.reverse.map Lexeme.token ++ later

/-- A token that has just been read may as well stand before what is left. -/
theorem yields_cons_iff
    :
    Yields ⟨offset, mode, lexeme :: lexemes⟩ text tokens ↔
      ∃ later, (∃ rest, later = lexeme.token :: rest ∧ Continues mode text rest) ∧
        tokens = lexemes.reverse.map Lexeme.token ++ later := by
  constructor
  · rintro ⟨rest, h, rfl⟩
    exact ⟨_, ⟨rest, rfl, h⟩, by simp⟩
  · rintro ⟨_, ⟨rest, rfl, h⟩, rfl⟩
    exact ⟨rest, h, by simp⟩

/-- A character that does not go on with a token is read as if nothing had been begun. -/
theorem yields_begin_iff (offset next : Nat) (lexemes) (c : Char) (text tokens) :
    Yields ⟨next, (begin offset lexemes c).1, (begin offset lexemes c).2⟩ text tokens ↔
      Yields ⟨offset, .between, lexemes⟩ (c :: text) tokens := by
  constructor
  · unfold begin
    split
    · next hblank =>
      rintro ⟨later, h, rfl⟩
      exact ⟨later, .blank hblank h, rfl⟩
    · next hblank =>
      split <;> rintro ⟨later, h, rfl⟩
      · exact ⟨_, .opening h, by simp⟩
      · exact ⟨_, .closing h, by simp⟩
      · exact ⟨_, .equals h, by simp⟩
      · obtain ⟨body, value, rest, later, rfl, hbody, rfl, h⟩ := h
        exact ⟨_, .quoted (.inl rfl) hbody h, by simp [textOf]⟩
      · obtain ⟨body, value, rest, later, rfl, hbody, rfl, h⟩ := h
        exact ⟨_, .quoted (.inr rfl) hbody h, by simp [textOf]⟩
      · obtain ⟨inner, rest, later, rfl, hinner, rfl, h⟩ := h
        exact ⟨_, .bracketed hinner h, by simp [textOf]⟩
      · exact h.elim
      · obtain ⟨more, rest, later, rfl, hmore, hend, rfl, h⟩ := h
        exact ⟨_, .word (by simp_all [isWordChar]) hmore hend h, by simp [textOf]⟩
  · rintro ⟨later, h, rfl⟩
    cases h with
    | blank hc h =>
      rw [show begin offset lexemes c = (.between, lexemes) from if_pos hc]
      exact ⟨_, h, rfl⟩
    | opening h | closing h | equals h =>
      refine ⟨_, h, ?_⟩
      change _ = List.map _ (List.reverse (_ :: lexemes)) ++ _
      simp
    | word hc hmore hend h =>
      have hbegin : begin offset lexemes c = (.word offset [c], lexemes) := by
        unfold begin
        split
        · simp_all [isWordChar]
        · split <;> simp_all [isWordChar]
      rw [hbegin]
      exact ⟨_, ⟨_, _, _, rfl, hmore, hend, rfl, h⟩, by simp [textOf]⟩
    | quoted hquote hbody h =>
      rcases hquote with rfl | rfl <;> refine ⟨_, ⟨_, _, _, _, rfl, hbody, rfl, h⟩, ?_⟩
      all_goals
        change _ = List.map _ lexemes.reverse ++ _
        simp [textOf]
    | bracketed hinner h =>
      refine ⟨_, ⟨_, _, _, rfl, hinner, rfl, h⟩, ?_⟩
      change _ = List.map _ lexemes.reverse ++ _
      simp [textOf]

section Within

variable {read : List Char}

theorem continues_word_iff (hc : isWordChar c = true) :
    Continues (.word start read) (c :: text) tokens ↔
      Continues (.word start (c :: read)) text tokens := by
  constructor
  · rintro ⟨more, rest, later, htext, hmore, hend, rfl, h⟩
    rcases List.cons_eq_append_iff.1 htext with ⟨rfl, rfl⟩ | ⟨more, rfl, rfl⟩
    · simp [hc] at hend
    · exact ⟨more, rest, later, rfl, by simp_all, hend, by simp, h⟩
  · rintro ⟨more, rest, later, rfl, hmore, hend, rfl, h⟩
    exact ⟨c :: more, rest, later, rfl, by simpa [hc] using hmore, hend, by simp, h⟩

theorem continues_wordEnd_iff (hc : isWordChar c = false) :
    Continues (.word start read) (c :: text) tokens ↔
      ∃ rest, tokens = .word (textOf read) :: rest ∧ Continues .between (c :: text) rest := by
  constructor
  · rintro ⟨more, rest, later, htext, hmore, hend, rfl, h⟩
    rcases List.cons_eq_append_iff.1 htext with ⟨rfl, rfl⟩ | ⟨more, rfl, rfl⟩
    · exact ⟨later, rfl, h⟩
    · simp [hc] at hmore
  · rintro ⟨rest, rfl, h⟩
    exact ⟨[], c :: text, rest, rfl, by simp, by simpa using hc, rfl, h⟩

theorem continues_bracketed_iff (hc : c ≠ ']') :
    Continues (.bracketed start read) (c :: text) tokens ↔
      Continues (.bracketed start (c :: read)) text tokens := by
  constructor
  · rintro ⟨inner, rest, later, htext, hinner, rfl, h⟩
    rcases List.cons_eq_append_iff.1 htext with ⟨rfl, hrest⟩ | ⟨inner, rfl, rfl⟩
    · simp [hc.symm] at hrest
    · exact ⟨inner, rest, later, rfl, by simp_all, by simp, h⟩
  · rintro ⟨inner, rest, later, rfl, hinner, rfl, h⟩
    exact ⟨c :: inner, rest, later, rfl, by simp [hc.symm, hinner], by simp, h⟩

theorem continues_bracketedEnd_iff :
    Continues (.bracketed start read) (']' :: text) tokens ↔
      ∃ rest, tokens = .bracketed (textOf read) :: rest ∧ Continues .between text rest := by
  constructor
  · rintro ⟨inner, rest, later, htext, hinner, rfl, h⟩
    rcases List.cons_eq_append_iff.1 htext with ⟨rfl, ⟨⟩⟩ | ⟨inner, rfl, rfl⟩
    · exact ⟨later, rfl, h⟩
    · simp at hinner
  · rintro ⟨rest, rfl, h⟩
    exact ⟨[], text, rest, rfl, by simp, rfl, h⟩

theorem unescape_of_mem (hc : (c, d) ∈ escapes) : unescape c = [d] := by
  simp only [escapes, List.mem_cons, List.not_mem_nil, or_false] at hc
  rcases hc with ⟨rfl, rfl⟩ | ⟨rfl, rfl⟩ | ⟨rfl, rfl⟩ | ⟨rfl, rfl⟩ | ⟨rfl, rfl⟩ | ⟨rfl, rfl⟩ <;> rfl

theorem unescape_of_not_mem (hc : ∀ d, (c, d) ∉ escapes) : unescape c = [c, '\\'] := by
  unfold unescape
  split <;> simp_all [escapes]

theorem continues_quoted_iff (hquote : c ≠ quote) (hescape : c ≠ '\\') :
    Continues (.quoted start quote read) (c :: text) tokens ↔
      Continues (.quoted start quote (c :: read)) text tokens := by
  constructor
  · rintro ⟨body, value, rest, later, htext, hbody, rfl, h⟩
    cases hbody <;> simp_all
    exact ⟨_, _, rest, later, rfl, ‹_›, by simp, h⟩
  · rintro ⟨body, value, rest, later, rfl, hbody, rfl, h⟩
    exact ⟨c :: body, c :: value, rest, later, rfl, .plain hquote hescape hbody, by simp, h⟩

theorem continues_quotedEnd_iff (hquote : quote ≠ '\\') :
    Continues (.quoted start quote read) (quote :: text) tokens ↔
      ∃ rest, tokens = .quoted (textOf read) :: rest ∧ Continues .between text rest := by
  constructor
  · rintro ⟨body, value, rest, later, htext, hbody, rfl, h⟩
    cases hbody <;> simp_all [Continues]
  · rintro ⟨rest, rfl, h⟩
    exact ⟨[], [], text, rest, rfl, .nil, rfl, h⟩

theorem continues_backslash_iff (hquote : '\\' ≠ quote) :
    Continues (.quoted start quote read) ('\\' :: text) tokens ↔
      Continues (.escaped start quote read) text tokens := by
  constructor
  · rintro ⟨body, value, rest, later, htext, hbody, rfl, h⟩
    cases hbody with
    | nil => simp [hquote] at htext
    | plain _ hescape => simp [hescape.symm] at htext
    | escape hc hbody =>
      obtain ⟨-, rfl⟩ := List.cons.inj htext
      exact ⟨_, _, _, rest, later, rfl, hbody, by simp [unescape_of_mem hc], h⟩
    | backslash hc hbody =>
      obtain ⟨-, rfl⟩ := List.cons.inj htext
      exact ⟨_, _, _, rest, later, rfl, hbody, by simp [unescape_of_not_mem hc], h⟩
  · rintro ⟨c, body, value, rest, later, rfl, hbody, rfl, h⟩
    by_cases hc : ∃ d, (c, d) ∈ escapes
    · obtain ⟨d, hd⟩ := hc
      exact ⟨_, _, rest, later, rfl, .escape hd hbody, by simp [unescape_of_mem hd], h⟩
    · rw [not_exists] at hc
      exact ⟨_, _, rest, later, rfl, .backslash hc hbody, by simp [unescape_of_not_mem hc], h⟩

theorem continues_escaped_iff :
    Continues (.escaped start quote read) (c :: text) tokens ↔
      Continues (.quoted start quote (unescape c ++ read)) text tokens := by
  constructor
  · rintro ⟨d, body, value, rest, later, ⟨⟩, hbody, rfl, h⟩
    exact ⟨body, value, rest, later, rfl, hbody, rfl, h⟩
  · rintro ⟨body, value, rest, later, rfl, hbody, rfl, h⟩
    exact ⟨c, body, value, rest, later, rfl, hbody, rfl, h⟩

end Within
/-- The quote of a string that has been begun is not a backslash. -/
def Mode.QuoteApart : Mode → Prop
  | .quoted _ quote _ | .escaped _ quote _ => quote ≠ '\\'
  | _ => True

theorem quoteApart_begin (offset : Nat) (lexemes) (c : Char) :
    (begin offset lexemes c).1.QuoteApart := by
  unfold begin
  split
  · trivial
  · split <;> simp [Mode.QuoteApart]

theorem quoteApart_advance (offset : Nat) (lexemes) (c : Char) (h : mode.QuoteApart) :
    (advance offset mode lexemes c).1.QuoteApart := by
  unfold advance
  split <;> (repeat' split) <;> first | exact quoteApart_begin _ _ _ | exact h | trivial

/-- Reading a character changes nothing about the tokens that the whole text gives. -/
theorem yields_step_iff (hquote : state.mode.QuoteApart) (c : Char) (text tokens) :
    Yields (step state c) text tokens ↔ Yields state (c :: text) tokens := by
  obtain ⟨offset, mode, lexemes⟩ := state
  cases mode with
  | between => exact yields_begin_iff offset _ lexemes c text tokens
  | word start read =>
    by_cases hc : isWordChar c = true
    · simp only [step, advance, hc, if_true, Yields, continues_word_iff hc]
    · rw [Bool.not_eq_true] at hc
      simp only [step, advance, hc, Bool.false_eq_true, if_false, yields_begin_iff]
      rw [yields_cons_iff]
      simp only [Yields, continues_wordEnd_iff hc]
  | quoted start quote read =>
    by_cases hend : c = quote
    · subst hend
      simp only [step, advance, if_true]
      rw [yields_cons_iff]
      simp only [Yields, continues_quotedEnd_iff hquote]
    · by_cases hescape : c = '\\'
      · subst hescape
        simp only [step, advance, hend, if_true, if_false, Yields, continues_backslash_iff hend]
      · simp only [step, advance, hend, hescape, if_false, Yields,
          continues_quoted_iff hend hescape]
  | escaped start quote read => simp only [step, advance, Yields, continues_escaped_iff]
  | bracketed start read =>
    by_cases hc : c = ']'
    · subst hc
      simp only [step, advance, if_true]
      rw [yields_cons_iff]
      simp only [Yields, continues_bracketedEnd_iff]
    · simp only [step, advance, hc, if_false, Yields, continues_bracketed_iff hc]
  | stopped place fault => simp only [step, advance, Yields, Continues]

/-! ## A whole text -/

theorem lexes_nil_iff : Lexes [] tokens ↔ tokens = [] := by
  constructor
  · rintro ⟨⟩
    rfl
  · rintro rfl
    exact .nil

theorem yields_nil_iff (state tokens) :
    Yields state [] tokens ↔
      (finish state).2 = none ∧ (finish state).1.map Lexeme.token = tokens := by
  obtain ⟨offset, mode, lexemes⟩ := state
  cases mode <;>
    simp [Yields, Continues, lexes_nil_iff, finish, and_assoc, @eq_comm _ tokens]

/-- The lexer finds the tokens that follow those it has read, and no others. -/
theorem yields_iff_finish_foldl (text tokens state) (hquote : state.mode.QuoteApart) :
    Yields state text tokens ↔
      (finish (text.foldl step state)).2 = none ∧
        (finish (text.foldl step state)).1.map Lexeme.token = tokens := by
  induction text generalizing state with
  | nil => exact yields_nil_iff state tokens
  | cons c text ih =>
    rw [← yields_step_iff hquote, List.foldl_cons]
    exact ih (step state c) (quoteApart_advance state.offset state.lexemes c hquote)

end Lexer

/-- A text is lexed without a fault exactly when it is a token sequence. -/
theorem lexes_iff (text tokens) :
    Lexes text tokens ↔ (lex text).2 = none ∧ (lex text).1.map Lexeme.token = tokens := by
  rw [lex, ← Lexer.yields_iff_finish_foldl text tokens .initial trivial]
  simp [Lexer.Yields, Lexer.Continues, Lexer.State.initial]

end SwiftToKotlin.Dump
