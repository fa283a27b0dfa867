import SwiftToKotlin.Proofs.Dump.Truncation

/-!
# Where a dump is wrong

An error of a dump names a place between two characters of the text. Except where the text holds
nothing at all, that place is the end of the text or the beginning of a token. The lexer counts
bytes, but it always stands between two characters, and it notes a place only when a token begins
there; the parser has its places from the tokens.
-/

namespace SwiftToKotlin.Dump

/-! ## Places of a text -/

def byteSize (text : List Char) : Nat :=
  (String.ofList text).utf8ByteSize

@[simp]
theorem byteSize_append (text more) : byteSize (text ++ more) = byteSize text + byteSize more := by
  rw [byteSize, String.ofList_append, String.utf8ByteSize_append, byteSize, byteSize]

@[simp]
theorem byteSize_singleton (c : Char) : byteSize [c] = c.utf8Size := by
  simp [byteSize]

/-- A token begins between `before` and `after`: whole tokens stand before, and a character follows
that is no blank and does not go on with a word. The token may be one that never ends, or a bracket
that begins nothing. -/
structure TokenBegins (before after : List Char) : Prop where
  whole : ∃ tokens, Lexes before tokens
  first : ∃ c ∈ after.head?, Text.isBlank c = false ∧
    (isWordChar c = true → ∀ d ∈ before.getLast?, isWordChar d = false)

/-- A token of the text begins at the byte offset. -/
def BeginsToken (text : List Char) (offset : Nat) : Prop :=
  ∃ before after, text = before ++ after ∧ offset = byteSize before ∧ TokenBegins before after

theorem BeginsToken.append (h : BeginsToken text offset) (more) :
    BeginsToken (text ++ more) offset := by
  obtain ⟨before, after, rfl, rfl, hwhole, c, hc, hfirst⟩ := h
  refine ⟨before, after ++ more, by simp, rfl, hwhole, c, ?_, hfirst⟩
  cases after with
  | nil => simp at hc
  | cons d rest => exact hc

/-! ## The lexer -/

namespace Lexer

/-- What the mode notes is where a token begins, and between two tokens no word can go on. -/
def Mode.Located (read : List Char) : Mode → Prop
  | .between => ∀ d ∈ read.getLast?, isWordChar d = false
  | .word start _ | .bracketed start _ | .stopped start _ => BeginsToken read start
  | .quoted start quote _ | .escaped start quote _ =>
    (quote = '"' ∨ quote = '\'') ∧ BeginsToken read start

/-- All places that are noted after a text has been read are where its tokens begin. -/
def Located (read : List Char) (mode : Mode) (lexemes : List Lexeme) : Prop :=
  mode.Located read ∧ ∀ lexeme ∈ lexemes, BeginsToken read lexeme.offset

variable {read : List Char}

theorem located_begin (hwhole : ∃ tokens, Lexes read tokens)
    (hlast : isWordChar c = true → ∀ d ∈ read.getLast?, isWordChar d = false)
    (hlexemes : ∀ lexeme ∈ lexemes, BeginsToken (read ++ [c]) lexeme.offset) :
    Located (read ++ [c]) (begin (byteSize read) lexemes c).1
      (begin (byteSize read) lexemes c).2 := by
  have hbegins (hblank : Text.isBlank c = false) : BeginsToken (read ++ [c]) (byteSize read) :=
    ⟨read, [c], rfl, rfl, hwhole, c, rfl, hblank, hlast⟩
  have hend (hword : isWordChar c = false) : ∀ d ∈ (read ++ [c]).getLast?, isWordChar d = false := by
    simpa using hword
  unfold begin
  split
  · next hblank => exact ⟨hend (by simp [isWordChar, hblank]), hlexemes⟩
  · next hblank =>
    rw [Bool.not_eq_true] at hblank
    have hcons (token : Token) : ∀ lexeme ∈ Lexeme.mk (byteSize read) token :: lexemes,
        BeginsToken (read ++ [c]) lexeme.offset :=
      List.forall_mem_cons.2 ⟨hbegins hblank, hlexemes⟩
    split
    · exact ⟨hend rfl, hcons .opening⟩
    · exact ⟨hend rfl, hcons .closing⟩
    · exact ⟨hend rfl, hcons .equals⟩
    · exact ⟨⟨.inl rfl, hbegins hblank⟩, hlexemes⟩
    · exact ⟨⟨.inr rfl, hbegins hblank⟩, hlexemes⟩
    · exact ⟨hbegins hblank, hlexemes⟩
    · exact ⟨hbegins hblank, hlexemes⟩
    · exact ⟨hbegins hblank, hlexemes⟩

/-- One character more. Where a token may begin, whole tokens have been read. -/
theorem located_advance (hoffset : offset = byteSize read)
    (hwhole : (finish ⟨offset, mode, lexemes⟩).2 = none → ∃ tokens, Lexes read tokens)
    (h : Located read mode lexemes) (c : Char) :
    Located (read ++ [c]) (advance offset mode lexemes c).1 (advance offset mode lexemes c).2 := by
  obtain ⟨hmode, hread⟩ := h
  subst hoffset
  have hlexemes : ∀ lexeme ∈ lexemes, BeginsToken (read ++ [c]) lexeme.offset :=
    fun lexeme hlexeme => (hread lexeme hlexeme).append [c]
  have hcons {start : Nat} (hstart : BeginsToken read start) (token : Token) :
      ∀ lexeme ∈ Lexeme.mk start token :: lexemes, BeginsToken (read ++ [c]) lexeme.offset :=
    List.forall_mem_cons.2 ⟨hstart.append [c], hlexemes⟩
  cases mode with
  | between => exact located_begin (hwhole rfl) (fun _ => hmode) hlexemes
  | word start chars =>
    by_cases hc : isWordChar c = true
    · rw [advance, if_pos hc]
      exact ⟨hmode.append [c], hlexemes⟩
    · rw [advance, if_neg hc]
      exact located_begin (hwhole rfl) (fun hword => absurd hword hc) (hcons hmode _)
  | quoted start quote chars =>
    obtain ⟨hquote, hstart⟩ := hmode
    by_cases hend : c = quote
    · rw [advance, if_pos hend]
      refine ⟨?_, hcons hstart _⟩
      rcases hquote with rfl | rfl <;> simp [Mode.Located, hend, isWordChar]
    · rw [advance, if_neg hend]
      split <;> exact ⟨⟨hquote, hstart.append [c]⟩, hlexemes⟩
  | escaped start quote chars => exact ⟨⟨hmode.1, hmode.2.append [c]⟩, hlexemes⟩
  | bracketed start chars =>
    by_cases hend : c = ']'
    · rw [advance, if_pos hend]
      exact ⟨by simp [Mode.Located, hend, isWordChar], hcons hmode _⟩
    · rw [advance, if_neg hend]
      exact ⟨hmode.append [c], hlexemes⟩
  | stopped place fault => exact ⟨hmode.append [c], hlexemes⟩

/-- The lexer stands between two characters, at the number of bytes that it has read. -/
theorem offset_foldl (read) : (read.foldl step .initial).offset = byteSize read := by
  induction read using List.reverseRecOn with
  | nil => rfl
  | append_singleton read c ih =>
    rw [List.foldl_append, byteSize_append, byteSize_singleton, ← ih]
    rfl

theorem located_foldl (read) :
    Located read (read.foldl step .initial).mode (read.foldl step .initial).lexemes := by
  induction read using List.reverseRecOn with
  | nil => exact ⟨by simp [State.initial, Mode.Located], by simp [State.initial]⟩
  | append_singleton read c ih =>
    rw [List.foldl_append]
    exact located_advance (offset_foldl read) (fun h => ⟨_, (lexes_iff read _).2 ⟨h, rfl⟩⟩) ih c

end Lexer

/-- Every token that is found, and the fault after them, is where a token of the text begins. -/
theorem beginsToken_lex (text) :
    (∀ lexeme ∈ (lex text).1, BeginsToken text lexeme.offset) ∧
      ∀ ending ∈ (lex text).2, BeginsToken text ending.1 := by
  obtain ⟨hmode, hlexemes⟩ := Lexer.located_foldl text
  rw [lex]
  generalize text.foldl Lexer.step .initial = state at hmode hlexemes
  obtain ⟨offset, mode, lexemes⟩ := state
  have hreverse : ∀ lexeme ∈ lexemes.reverse, BeginsToken text lexeme.offset := by
    simpa using hlexemes
  have hending {place : Nat} (fault : LexFault) (h : BeginsToken text place) :
      ∀ ending ∈ some (place, fault), BeginsToken text ending.1 := by
    simpa using h
  cases mode with
  | between => exact ⟨hreverse, by simp [Lexer.finish]⟩
  | word start read =>
    have hstart : BeginsToken text start := hmode
    simpa [Lexer.finish, hstart, or_imp, forall_and] using hlexemes
  | quoted start quote read => exact ⟨hreverse, hending .unterminatedString hmode.2⟩
  | escaped start quote read => exact ⟨hreverse, hending .unterminatedString hmode.2⟩
  | bracketed start read => exact ⟨hreverse, hending .unterminatedRange hmode⟩
  | stopped place fault => exact ⟨hreverse, hending fault hmode⟩

/-! ## The parser -/

namespace Parser

/-- The places that a step notes are where its token begins: a token that may not stand where it
does is wrong there, and the equals sign that a value is missing for is the token itself. After a
token something has begun. -/
def Step.PlacedAt (lexeme : Lexeme) : Step → Prop
  | .error (offset, _) => offset = lexeme.offset
  | .ok .root => False
  | .ok (.value _ equals _ _) => equals = lexeme.offset
  | .ok _ => True

theorem acceptRange_placedAt (file text : String) (frame outer) (lexeme : Lexeme) :
    (acceptRange file lexeme.offset text frame outer).PlacedAt lexeme := by
  unfold acceptRange
  split
  · trivial
  · rfl

theorem acceptItem_placedAt (file : String) (frame outer) (lexeme : Lexeme) :
    (acceptItem file frame outer lexeme).PlacedAt lexeme := by
  unfold acceptItem
  split
  · cases outer <;> trivial
  · split
    · rfl
    · trivial
  · exact acceptRange_placedAt file _ frame outer lexeme
  · trivial
  · rfl
  · rfl

theorem acceptValue_placedAt (file name : String) (frame outer) (lexeme : Lexeme) :
    (acceptValue file name frame outer lexeme).PlacedAt lexeme := by
  unfold acceptValue
  split
  · trivial
  · trivial
  · split
    · exact acceptRange_placedAt file _ frame outer lexeme
    · trivial
  · rfl

theorem step_placedAt (file : String) (expectation) (lexeme : Lexeme) :
    (step file expectation lexeme).PlacedAt lexeme := by
  cases expectation with
  | root =>
    rw [step]
    split
    · trivial
    · rfl
  | kind opening outer =>
    rw [step]
    split
    · trivial
    · rfl
  | item frame outer => exact acceptItem_placedAt file frame outer lexeme
  | flagOrEquals name frame outer =>
    rw [step]
    split
    · rfl
    · exact acceptItem_placedAt file _ outer lexeme
  | value name equals frame outer => exact acceptValue_placedAt file name frame outer lexeme
  | done root => rfl

/-- What a run of tokens ends with is placed at one of them. -/
theorem placedAt_foldlM (file : String) (hne : lexemes ≠ []) (expectation) :
    ∃ lexeme ∈ lexemes, Step.PlacedAt lexeme (lexemes.foldlM (step file) expectation) := by
  induction lexemes generalizing expectation with
  | nil => exact absurd rfl hne
  | cons lexeme lexemes ih =>
    have hstep := step_placedAt file expectation lexeme
    rw [List.foldlM_cons]
    generalize step file expectation lexeme = result at hstep
    cases result with
    | error fault => exact ⟨lexeme, List.mem_cons_self, hstep⟩
    | ok next =>
      by_cases hlast : lexemes = []
      · subst hlast
        exact ⟨lexeme, List.mem_cons_self, hstep⟩
      · obtain ⟨later, hlater, hplaced⟩ := ih hlast next
        exact ⟨later, List.mem_cons_of_mem _ hlater, hplaced⟩

/-- A text that ends too early is wrong at its end, or at the equals sign of a missing value. -/
theorem finish_offset (hplaced : Step.PlacedAt lexeme (.ok expectation))
    (h : finish size expectation = .error (offset, fault)) :
    offset = lexeme.offset ∨ offset = size := by
  cases expectation with
  | root => exact hplaced.elim
  | kind | item | flagOrEquals =>
    cases h
    exact .inr rfl
  | value =>
    cases h
    exact .inl hplaced
  | done => cases h

end Parser

/-- The places that an error of a token sequence can have. -/
theorem parseLexemes_error_place
    (h : parseLexemes file size lexemes ending = .error (offset, fault)) :
    (∃ lexeme ∈ lexemes, offset = lexeme.offset) ∨ (∃ place ∈ ending, offset = place.1) ∨
      offset = size ∨ offset = 0 ∧ lexemes = [] ∧ ending = none := by
  by_cases hnone : lexemes = []
  · subst hnone
    cases ending with
    | none =>
      cases h
      exact .inr (.inr (.inr ⟨rfl, rfl, rfl⟩))
    | some place =>
      cases h
      exact .inr (.inl ⟨place, rfl, rfl⟩)
  · obtain ⟨lexeme, hlexeme, hplaced⟩ := Parser.placedAt_foldlM file hnone .root
    rw [parseLexemes] at h
    cases hfold : lexemes.foldlM (Parser.step file) .root with
    | error error =>
      rw [hfold] at h hplaced
      cases h
      exact .inl ⟨lexeme, hlexeme, hplaced⟩
    | ok expectation =>
      rw [hfold] at h hplaced
      cases ending with
      | none =>
        rcases Parser.finish_offset hplaced h with hoffset | hoffset
        · exact .inl ⟨lexeme, hlexeme, hoffset⟩
        · exact .inr (.inr (.inl hoffset))
      | some place =>
        cases h
        exact .inr (.inl ⟨place, rfl, rfl⟩)

/-! ## Lines and columns -/

theorem charsBefore_byteSize (before after) :
    charsBefore (byteSize before) (before ++ after) = before := by
  induction before with
  | nil =>
    cases after with
    | nil => rfl
    | cons c rest =>
      have hpos : ¬ c.utf8Size ≤ byteSize [] := by
        simpa [byteSize] using c.utf8Size_pos.ne'
      rw [List.nil_append, charsBefore, if_neg hpos]
  | cons c before ih =>
    have hsize : byteSize (c :: before) = c.utf8Size + byteSize before := by
      rw [← List.singleton_append, byteSize_append, byteSize_singleton]
    rw [List.cons_append, charsBefore, if_pos (by omega), hsize, Nat.add_sub_cancel_left, ih]

/-- The error points between two parts of a text: its offset counts the bytes before, its line the
line ends before, and its column the characters since the last of them. The place is the beginning
of a text without any token, the end of the text, or the beginning of a token. -/
structure SyntaxError.PointsBetween (error : SyntaxError) (before after : String) : Prop where
  offset : error.offset = before.utf8ByteSize
  line : error.line = before.toList.count '\n' + 1
  column : ∃ earlier current, before.toList = earlier ++ current ∧
    (earlier = [] ∨ earlier.getLast? = some '\n') ∧ '\n' ∉ current ∧
    error.column = current.length + 1
  place : before = "" ∧ (∀ c ∈ after.toList, Text.isBlank c = true) ∨ after = "" ∨
    TokenBegins before.toList after.toList

/-- The characters since the last line end. -/
theorem exists_current_line (before) :
    ∃ earlier, before = earlier ++ (before.reverse.takeWhile (· != '\n')).reverse ∧
      (earlier = [] ∨ earlier.getLast? = some '\n') := by
  refine ⟨(before.reverse.dropWhile (· != '\n')).reverse, ?_, ?_⟩
  · rw [← List.reverse_append, List.takeWhile_append_dropWhile, List.reverse_reverse]
  · cases hdrop : before.reverse.dropWhile (· != '\n') with
    | nil => exact .inl rfl
    | cons c rest =>
      have hc := List.head?_dropWhile_not (· != '\n') before.reverse
      simp_all

theorem pointsBetween_locate (fault : Fault)
    (hplace : before = "" ∧ (∀ c ∈ after.toList, Text.isBlank c = true) ∨ after = "" ∨
      TokenBegins before.toList after.toList) :
    (SyntaxError.locate (before ++ after).toList before.utf8ByteSize fault).PointsBetween
      before after := by
  have hbefore : charsBefore before.utf8ByteSize (before ++ after).toList = before.toList := by
    simpa [byteSize] using charsBefore_byteSize before.toList after.toList
  obtain ⟨earlier, hsplit, hearlier⟩ := exists_current_line before.toList
  have hcurrent : '\n' ∉ (before.toList.reverse.takeWhile (· != '\n')).reverse := by
    intro hmem
    have hother := List.all_eq_true.1 List.all_takeWhile _ (List.mem_reverse.1 hmem)
    simp at hother
  refine ⟨rfl, ?_, ⟨earlier, _, hsplit, hearlier, hcurrent, ?_⟩, hplace⟩
  · rw [SyntaxError.locate, hbefore]
  · rw [SyntaxError.locate, hbefore, List.length_reverse]

/-! ## Errors of a dump -/

theorem parse_error_points (h : parse file text = .error error) :
    ∃ before after, text = before ++ after ∧ error.PointsBetween before after := by
  obtain ⟨hlexemes, hending⟩ := beginsToken_lex text.toList
  obtain ⟨offset, fault, hparse, rfl⟩ : ∃ offset fault,
      parseLexemes file text.utf8ByteSize (lex text.toList).1 (lex text.toList).2 =
        .error (offset, fault) ∧ SyntaxError.locate text.toList offset fault = error := by
    cases hparse : parseLexemes file text.utf8ByteSize (lex text.toList).1 (lex text.toList).2 with
    | ok root =>
      simp only [parse, hparse] at h
      cases h
    | error place =>
      simp only [parse, hparse] at h
      exact ⟨place.1, place.2, rfl, Except.error.inj h⟩
  have htoken (hbegins : BeginsToken text.toList offset) : ∃ before after, text = before ++ after ∧
      (SyntaxError.locate text.toList offset fault).PointsBetween before after := by
    obtain ⟨before, after, htext, rfl, hplace⟩ := hbegins
    obtain rfl : text = String.ofList before ++ String.ofList after := by
      rw [← String.ofList_append, ← htext, String.ofList_toList]
    refine ⟨_, _, rfl, pointsBetween_locate fault (.inr (.inr ?_))⟩
    simpa using hplace
  rcases parseLexemes_error_place hparse with
    ⟨lexeme, hlexeme, rfl⟩ | ⟨place, hplace, rfl⟩ | rfl | ⟨rfl, hnone, hend⟩
  · exact htoken (hlexemes lexeme hlexeme)
  · exact htoken (hending place hplace)
  · have hpoints : (SyntaxError.locate (text ++ "").toList text.utf8ByteSize fault).PointsBetween
        text "" := pointsBetween_locate fault (.inr (.inl rfl))
    exact ⟨text, "", by simp, by simpa using hpoints⟩
  · have hlexes : Lexes text.toList [] := (lexes_iff text.toList []).2 ⟨hend, by rw [hnone]; rfl⟩
    have hpoints : (SyntaxError.locate ("" ++ text).toList "".utf8ByteSize fault).PointsBetween
        "" text := pointsBetween_locate fault (.inl ⟨rfl, lexes_no_tokens_iff.1 hlexes⟩)
    exact ⟨"", text, by simp, by simpa using hpoints⟩

/-- Every token of a text begins between two characters. The text is a dump, or it is refused with
an error that points between two characters: to the beginning of a text without any token, to the
end of the text, or to where a token begins. -/
theorem parse_points_into_text (file text : String) :
    (∀ lexeme ∈ (lex text.toList).1, BeginsToken text.toList lexeme.offset) ∧
      ((∃ root, parse file text = .ok root) ∨
        ∃ error before after, parse file text = .error error ∧ text = before ++ after ∧
          error.offset ≤ text.utf8ByteSize ∧ error.PointsBetween before after) := by
  refine ⟨(beginsToken_lex text.toList).1, ?_⟩
  cases hparse : parse file text with
  | ok root => exact .inl ⟨root, rfl⟩
  | error error =>
    obtain ⟨before, after, rfl, hpoints⟩ := parse_error_points hparse
    refine .inr ⟨error, before, after, rfl, rfl, ?_, hpoints⟩
    rw [hpoints.offset, String.utf8ByteSize_append]
    omega

end SwiftToKotlin.Dump
