import SwiftToKotlin.Conversion
import SwiftToKotlin.Proofs.Dump.Writing

/-!
# Dumps that are cut off

A dump that is cut off is never taken for a smaller one. The cut falls between two tokens, in a
word, or in a string or a range. The tokens before it are those of the whole text, so the parser
gets through them; but it expects more when the text ends, for only a closing parenthesis completes
a dump, and no token comes after that.
-/

namespace SwiftToKotlin

namespace Dump

/-- Whether the fault of a text is that it ends too early. -/
def Fault.isEarlyEnd : Fault → Bool
  | lexical .unterminatedString => true
  | lexical .unterminatedRange => true
  | empty => true
  | unclosed _ => true
  | missingValue _ => true
  | _ => false

/-! ## Tokens before and after a cut -/

/-- Only blanks are no tokens at all. -/
theorem lexes_no_tokens_iff : Lexes text [] ↔ ∀ c ∈ text, Text.isBlank c = true := by
  constructor
  · intro h
    induction text with
    | nil => simp
    | cons c text ih =>
      cases h with
      | blank hc h => exact List.forall_mem_cons.2 ⟨hc, ih h⟩
  · intro h
    simpa using lexes_blanks h .nil

namespace Lexer

theorem quoteApart_foldl (text : List Char) (h : state.mode.QuoteApart) :
    (text.foldl step state).mode.QuoteApart := by
  induction text generalizing state with
  | nil => exact h
  | cons c text ih => exact ih (quoteApart_advance state.offset state.lexemes c h)

/-- The tokens of a text are those read before a place in it and those read from there on. -/
theorem lexes_append_iff (text rest tokens) :
    Lexes (text ++ rest) tokens ↔ Yields (text.foldl step .initial) rest tokens := by
  have hquote : State.initial.mode.QuoteApart := trivial
  rw [lexes_iff, yields_iff_finish_foldl rest tokens _ (quoteApart_foldl text hquote), lex,
    List.foldl_append]

end Lexer

/-! ## The parser at a cut -/

namespace Parser

/-- The parser gets through the first tokens of a dump, and the others complete it. -/
theorem completes_append_iff {lexemes : List Lexeme} :
    Completes file expectation (lexemes.map Lexeme.token ++ tokens) root ↔
      ∃ next, lexemes.foldlM (step file) expectation = .ok next ∧
        Completes file next tokens root := by
  induction lexemes generalizing expectation with
  | nil => simp [pure, Except.pure]
  | cons lexeme lexemes ih =>
    rw [List.map_cons, List.cons_append, ← proceeds_step_iff, List.foldlM_cons]
    cases step file expectation lexeme with
    | error fault => simp [not_proceeds_error, bind, Except.bind]
    | ok next => rw [proceeds_ok_iff, ih]; rfl

/-- Whether a text that ends here ends too early. -/
def Expectation.Pending (expectation : Expectation) : Prop :=
  ∀ size, ∃ offset fault, finish size expectation = .error (offset, fault) ∧
    fault.isEarlyEnd = true

theorem pending_of_completes_cons (h : Completes file expectation (token :: tokens) root) :
    expectation.Pending := by
  intro size
  cases expectation with
  | done node => exact absurd h.1 (by simp)
  | root | kind | item | flagOrEquals | value => exact ⟨_, _, rfl, rfl⟩

/-- Where a word may stand, any other may stand as well, and it never completes a dump. -/
theorem step_word_pending (h : Completes file expectation (.word word :: tokens) root)
    (offset : Nat) (other : String) :
    ∃ next, step file expectation ⟨offset, .word other⟩ = .ok next ∧ next.Pending := by
  cases expectation with
  | root =>
    obtain ⟨rest, heq, -⟩ := (completes_root_iff 0).1 h
    cases heq
  | done node => exact absurd h.1 (by simp)
  | kind | item | flagOrEquals | value => exact ⟨_, rfl, fun size => ⟨_, _, rfl, rfl⟩⟩

end Parser

/-! ## A text that is cut off -/

section Cut

/-- The text is refused because it ends too early. -/
def EndsEarly (file text : String) : Prop :=
  ∃ error, parse file text = .error error ∧ error.fault.isEarlyEnd = true

theorem endsEarly_of_parseLexemes (hlex : lex text.toList = (lexemes, ending))
    (h : parseLexemes file text.utf8ByteSize lexemes ending = .error (offset, fault))
    (hfault : fault.isEarlyEnd = true) : EndsEarly file text := by
  refine ⟨.locate text.toList offset fault, ?_, hfault⟩
  simp only [parse, hlex, h]

theorem endsEarly_of_pending (hlex : lex text.toList = (lexemes, none))
    (hfold : lexemes.foldlM (Parser.step file) .root = .ok expectation)
    (h : expectation.Pending) : EndsEarly file text := by
  obtain ⟨offset, fault, hfinish, hfault⟩ := h text.utf8ByteSize
  have hparse : parseLexemes file text.utf8ByteSize lexemes none = .error (offset, fault) := by
    rw [parseLexemes, hfold]
    exact hfinish
  exact endsEarly_of_parseLexemes hlex hparse hfault

theorem endsEarly_of_lexFault (hlex : lex text.toList = (lexemes, some (offset, fault)))
    (hfold : lexemes.foldlM (Parser.step file) .root = .ok expectation)
    (hfault : (Fault.lexical fault).isEarlyEnd = true) : EndsEarly file text := by
  have hparse : parseLexemes file text.utf8ByteSize lexemes (some (offset, fault)) =
      .error (offset, .lexical fault) := by
    rw [parseLexemes, hfold]
    rfl
  exact endsEarly_of_parseLexemes hlex hparse hfault

/-- Whatever the lexer was in the middle of when it came to the cut. -/
theorem endsEarly_of_completes (hstate : text.toList.foldl Lexer.step .initial = state)
    (hrest : ∃ c ∈ rest, Text.isBlank c = false) (hlater : Lexer.Continues state.mode rest later)
    (hfold : state.lexemes.reverse.foldlM (Parser.step file) .root = .ok expectation)
    (h : Parser.Completes file expectation later root) : EndsEarly file text := by
  have hlex : lex text.toList = Lexer.finish state := by rw [lex, hstate]
  obtain ⟨size, mode, lexemes⟩ := state
  cases mode with
  | between =>
    cases later with
    | nil =>
      obtain ⟨c, hc, hblank⟩ := hrest
      rw [lexes_no_tokens_iff.1 hlater c hc] at hblank
      cases hblank
    | cons token later => exact endsEarly_of_pending hlex hfold (Parser.pending_of_completes_cons h)
  | word start read =>
    obtain ⟨more, -, later, -, -, -, rfl, -⟩ := hlater
    obtain ⟨next, hstep, hnext⟩ := Parser.step_word_pending h start (Lexer.textOf read)
    have hwhole : (⟨start, .word (Lexer.textOf read)⟩ :: lexemes).reverse.foldlM
        (Parser.step file) .root = .ok next := by
      rw [List.reverse_cons, List.foldlM_append, hfold]
      exact (bind_pure _).trans hstep
    exact endsEarly_of_pending hlex hwhole hnext
  | quoted | escaped | bracketed => exact endsEarly_of_lexFault hlex hfold rfl
  | stopped => exact hlater.elim

end Cut

/-- If more than blanks is cut off from the end of a dump, then what is left is no dump: it is
refused for ending too early, and nothing is converted. -/
theorem parse_refuses_cut_dump {file text rest : String} {root : Node}
    (h : parse file (text ++ rest) = .ok root) (hrest : ∃ c ∈ rest.toList, Text.isBlank c = false) :
    ∃ error, parse file text = .error error ∧ error.fault.isEarlyEnd = true ∧
      ∀ settings, Conversion.ofText settings file text = .error error := by
  rw [parse_eq_ok_iff_parseLexemes, parseLexemes_eq_ok_iff, String.toList_append] at h
  obtain ⟨hending, hcompletes⟩ := h
  obtain ⟨later, hlater, htokens⟩ :=
    (Lexer.lexes_append_iff text.toList rest.toList _).1 ((lexes_iff _ _).2 ⟨hending, rfl⟩)
  rw [htokens] at hcompletes
  obtain ⟨expectation, hfold, hcompletes⟩ := Parser.completes_append_iff.1 hcompletes
  obtain ⟨error, herror, hearly⟩ := endsEarly_of_completes rfl hrest hlater hfold hcompletes
  refine ⟨error, herror, hearly, fun settings => ?_⟩
  rw [Conversion.ofText, herror]
  rfl

/-- The cut falls after the backslash of an escaped quote. -/
theorem parse_refuses_cut_string :
    parse "main.swift" ("(call_expr text=\"a \\" ++ "\"b\" (brace_stmt))") =
        .ok ⟨"call_expr", [("text", "a \"b")], [⟨"brace_stmt", [], [], none⟩], none⟩ ∧
      ∃ error, parse "main.swift" "(call_expr text=\"a \\" = .error error ∧
        error.fault.isEarlyEnd = true ∧
        ∀ settings,
          Conversion.ofText settings "main.swift" "(call_expr text=\"a \\" = .error error := by
  have hlexes : Lexes ("(call_expr text=\"a \\" ++ "\"b\" (brace_stmt))").toList
      [.opening, .word "call_expr", .word "text", .equals, .quoted "a \"b", .opening,
        .word "brace_stmt", .closing, .closing] := by
    rw [lexes_iff, String.toList_append]
    exact ⟨rfl, rfl⟩
  have hderives : Derives "main.swift"
      [.opening, .word "call_expr", .word "text", .equals, .quoted "a \"b", .opening,
        .word "brace_stmt", .closing, .closing]
      ⟨"call_expr", [("text", "a \"b")], [⟨"brace_stmt", [], [], none⟩], none⟩ :=
    .node "call_expr" (.cons (.quoted "text" "a \"b") (.cons (.node "brace_stmt" .nil) .nil))
  have hwhole := parse_eq_ok_iff_isDump.2 ⟨_, hlexes, hderives, by decide⟩
  exact ⟨hwhole, parse_refuses_cut_dump hwhole ⟨'b', by decide, by decide⟩⟩

end Dump

end SwiftToKotlin
