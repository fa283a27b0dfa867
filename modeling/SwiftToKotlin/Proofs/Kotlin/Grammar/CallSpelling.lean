import SwiftToKotlin.Proofs.Kotlin.Grammar.Call
import SwiftToKotlin.Proofs.Kotlin.Grammar.Spelling
import SwiftToKotlin.Proofs.Kotlin.Layout
import SwiftToKotlin.Proofs.Swift.TyTokens

/-!
# Fragments that spell a call

A fragment spells an expression if each text of it, whatever its indentation, is read as that
expression and as what follows makes of it: a lambda behind a call that ends in its arguments goes
to this call. Each way to write a call keeps this.
-/

namespace SwiftToKotlin.Kotlin

/-! ## What a lambda goes to -/

def Construct.isLambda {α : Type} : Construct α → Bool
  | lambda _ _ => true
  | _ => false

/-- The call that a lambda behind an expression makes of it. -/
def Construct.applied (base : Construct Node) (lambda : Node) : Construct Node :=
  match base with
  | .call callee args none => .call callee args (some lambda)
  | base => .call ⟨base, none⟩ [] (some lambda)

namespace CallGrammar

open Grammar (IsName EndsIdentifier nextToken? nextToken?_name nextToken?_dot)
open Text (isBlank isNameChar)

/-! ## Lexing -/

section Fixed

variable (h : Lexes text symbols)

include h

theorem Lexes.openParen : Lexes ('(' :: text) (.mark .openParen :: symbols) :=
  .symbol rfl h

theorem Lexes.closeParen : Lexes (')' :: text) (.mark .closeParen :: symbols) :=
  .symbol rfl h

theorem Lexes.comma : Lexes (',' :: ' ' :: text) (.mark .comma :: symbols) :=
  .symbol rfl (.blank h)

theorem Lexes.equals : Lexes (' ' :: '=' :: ' ' :: text) (.mark .equals :: symbols) :=
  .blank (.symbol rfl (.blank h))

theorem Lexes.safeDot : Lexes ('?' :: '.' :: text) (.mark .safeDot :: symbols) :=
  .symbol rfl h

theorem Lexes.openBrace : Lexes ('\x7b' :: text) (.openBrace :: symbols) :=
  .symbol rfl h

theorem Lexes.closeBrace : Lexes ('\x7d' :: text) (.closeBrace :: symbols) :=
  .symbol rfl h

theorem Lexes.arrow : Lexes (' ' :: '-' :: '>' :: text) (.arrow :: symbols) :=
  .blank (.symbol rfl h)

theorem Lexes.blanks (count : Nat) : Lexes (List.replicate count ' ' ++ text) symbols := by
  induction count with
  | zero => exact h
  | succ count ih => exact .blank ih

theorem Lexes.lineBreak (blanks : Nat) :
    Lexes ('\n' :: (List.replicate blanks ' ' ++ text)) (.lineBreak :: symbols) :=
  .symbol rfl (h.blanks blanks)

end Fixed

theorem Lexes.dot (hc : c ≠ '.') (h : Lexes (c :: rest) symbols) :
    Lexes ('.' :: c :: rest) (.mark .dot :: symbols) := by
  refine .symbol ?_ h
  rw [nextSymbol?, nextToken?_dot hc]
  rfl

theorem endsIdentifier_cons (h : isNameChar c = false) (rest) : EndsIdentifier (c :: rest) := by
  intro d hd
  cases hd
  exact h

/-- The text ends in a character that is no blank. -/
def EndsInCode (text : List Char) : Prop :=
  ∃ c ∈ text.getLast?, isBlank c = false

theorem EndsInCode.append (h : EndsInCode more) (text) : EndsInCode (text ++ more) := by
  obtain ⟨c, hc, hblank⟩ := h
  exact ⟨c, by simp [Option.mem_def.1 hc], hblank⟩

theorem endsInCode_singleton (h : isBlank c = false) : EndsInCode [c] :=
  ⟨c, rfl, h⟩

section Names

variable (hname : IsName name)

include hname

theorem readLayout_name (rest) : readLayout (name.toList ++ rest) = none := by
  rcases hname with ⟨hplain, -⟩ | ⟨inner, hname, -⟩
  · obtain ⟨c, cs, hname, hc, -⟩ := Grammar.exists_cons_of_isPlainIdentifier hplain
    rw [hname, List.cons_append, readLayout]
    all_goals
      intro _ heq
      rw [(List.cons.inj heq).1] at hc
      cases hc
  · rw [hname]
    rfl

theorem lexes_name (hends : EndsIdentifier rest) (h : Lexes rest symbols) :
    Lexes (name.toList ++ rest) (.word name :: symbols) := by
  refine .symbol ?_ h
  rw [nextSymbol?, readLayout_name hname, nextToken?_name hname hends]
  rfl

theorem endsInCode_name : EndsInCode name.toList := by
  rcases hname with ⟨hplain, -⟩ | ⟨inner, hname, -⟩
  · obtain ⟨d, cs, hname, -, hchars⟩ := Grammar.exists_cons_of_isPlainIdentifier hplain
    rw [hname]
    exact ⟨_, List.getLast?_eq_some_getLast _,
      Text.isBlank_eq_false_of_isNameChar (hchars _ (List.getLast_mem (List.cons_ne_nil d cs)))⟩
  · rw [hname]
    exact (endsInCode_singleton (by decide)).append _

end Names

/-! ## Behind an expression -/

/-- Where reading goes on behind an expression. -/
def Place.behind : Construct Node → Place
  | .call callee args none => .trailing callee args
  | base => .suffixes ⟨base, none⟩

theorem Reads.behind (h : Reads (.suffixes ⟨base, none⟩) symbols node rest)
    (hnone : (skipBreaks symbols).head? ≠ some .openBrace) :
    Reads (.behind base) symbols node rest := by
  unfold Place.behind
  split
  · exact .noTrailing hnone h
  · exact h

theorem Reads.behind_lambda {lambda : Node}
    (hlambda : Reads .lambda (skipBreaks symbols) lambda more)
    (h : Reads (.behind (base.applied lambda)) more node rest) :
    Reads (.behind base) symbols node rest := by
  unfold Construct.applied at h
  unfold Place.behind
  split at h
  · exact .trailing hlambda h
  · exact .applied hlambda h

/-- What an expression that is no lambda begins with. Only a single name can be taken for the name
of an argument or of a parameter. -/
inductive Opening : List Symbol → Prop
  | word (name : String) : Opening [.word name]
  | continued (name : String) (hnext : next.isSuffixInLine = true)
      (symbols : List Symbol) : Opening (.word name :: next :: symbols)
  | paren (symbols : List Symbol) : Opening (.mark .openParen :: symbols)

namespace Opening

variable (h : Opening symbols)

include h

theorem append (hnext : next.isSuffixInLine = true) (more) : Opening (symbols ++ next :: more) := by
  cases h with
  | word name => exact .continued name hnext more
  | continued name hfirst symbols => exact .continued name hfirst (symbols ++ next :: more)
  | paren symbols => exact .paren (symbols ++ next :: more)

theorem skipBreaks (more) : skipBreaks (symbols ++ more) = symbols ++ more := by
  cases h <;> rfl

theorem head?_ne (more) : (symbols ++ more).head? ≠ some .openBrace := by
  cases h <;> exact fun heq => by cases heq

theorem not_isSuffix (more) : (symbols ++ more).head?.any Symbol.isSuffix = false := by
  cases h <;> rfl

/-- A word at the beginning is followed by what goes on with it, or it is the whole expression. -/
theorem next_cases (heq : symbols ++ more = .word name :: next :: rest) :
    next.isSuffixInLine = true ∨ more.head? = some next := by
  cases h with
  | word name =>
    cases heq
    exact .inr rfl
  | continued name hnext symbols =>
    cases heq
    exact .inl hnext
  | paren symbols => cases heq

theorem splitName (hmore : more.head? ≠ some (.mark .equals)) :
    splitName (symbols ++ more) = (none, symbols ++ more) := by
  unfold CallGrammar.splitName
  split
  next heq =>
    rcases h.next_cases heq with hnext | hnext
    · cases hnext
    · exact absurd hnext hmore
  · rfl

theorem readNames (hmore : more.head?.any Symbol.endsStatement = true) :
    readNames (symbols ++ more) = none := by
  have hnot {name : String} {next : Symbol} {rest : List Symbol}
      (heq : symbols ++ more = .word name :: next :: rest) :
      next.isSuffixInLine = true ∨ next.endsStatement = true := by
    rcases h.next_cases heq with hnext | hnext
    · exact .inl hnext
    · rw [hnext] at hmore
      exact .inr hmore
  unfold CallGrammar.readNames
  split
  next heq => rcases hnot heq with hnext | hnext <;> cases hnext
  next heq => rcases hnot heq with hnext | hnext <;> cases hnext
  · rfl

end Opening

/-! ## Spelling -/

/-- All texts of the fragment consist of the symbols. -/
def LexesAs (fragment : Fragment) (symbols : List Symbol) : Prop :=
  ∀ {text rest more}, fragment.LaidOut text → EndsIdentifier rest → Lexes rest more →
    Lexes (text ++ rest) (symbols ++ more)

/-- All texts of the fragment are read as the expression and as what follows makes of it. -/
structure Spelling (fragment : Fragment) (symbols : List Symbol) (construct : Construct Node) :
    Prop where
  lexes : LexesAs fragment symbols
  reads {more rest : List Symbol} {result : Node} :
    Reads (.behind construct) more result rest → Reads .expression (symbols ++ more) result rest
  endsInCode {text : List Char} : fragment.LaidOut text → EndsInCode text

/-- Only a lambda begins like one. -/
structure Begins (symbols : List Symbol) (construct : Construct Node) : Prop where
  opening : construct.isLambda = false → Opening symbols
  lambda : construct.isLambda = true →
    ∀ more, Reads .lambda (symbols ++ more) ⟨construct, none⟩ more

/-- The fragment spells the expression. -/
def Spells (fragment : Fragment) (construct : Construct Node) : Prop :=
  ∃ symbols, Begins symbols construct ∧ Spelling fragment symbols construct

/-- The fragment spells the expression so that it can be a callee or have a member. -/
def SpellsOperand (fragment : Fragment) (construct : Construct Node) : Prop :=
  ∃ symbols, Opening symbols ∧ Spelling fragment symbols construct

section Begins

variable (h : Begins symbols construct)

include h

theorem Begins.exists_openBrace (hlambda : construct.isLambda = true) :
    ∃ inner, symbols = .openBrace :: inner := by
  have hhead := (h.lambda hlambda []).head?_lambda
  rw [List.append_nil, List.head?_eq_some_iff] at hhead
  exact hhead

theorem Begins.opening_or : Opening symbols ∨ ∃ inner, symbols = .openBrace :: inner := by
  cases hlambda : construct.isLambda with
  | false => exact .inl (h.opening hlambda)
  | true => exact .inr (h.exists_openBrace hlambda)

theorem Begins.skipBreaks (more) : skipBreaks (symbols ++ more) = symbols ++ more := by
  rcases h.opening_or with h | ⟨inner, rfl⟩
  · exact h.skipBreaks more
  · rfl

theorem Begins.splitName (hmore : more.head? ≠ some (.mark .equals)) :
    splitName (symbols ++ more) = (none, symbols ++ more) := by
  rcases h.opening_or with h | ⟨inner, rfl⟩
  · exact h.splitName hmore
  · rfl

theorem Begins.readNames (hmore : more.head?.any Symbol.endsStatement = true) :
    readNames (symbols ++ more) = none := by
  rcases h.opening_or with h | ⟨inner, rfl⟩
  · exact h.readNames hmore
  · rfl

end Begins

theorem Spelling.reads_whole (h : Spelling fragment symbols construct)
    (hstop : goesOn more = false) : Reads .expression (symbols ++ more) ⟨construct, none⟩ more := by
  refine h.reads (.behind (.stop hstop) fun hbrace => ?_)
  simp [goesOn, hbrace, Symbol.isSuffix] at hstop

theorem Spells.parenthesized (h : Spells fragment construct) (hlambda : construct.isLambda = true) :
    SpellsOperand ("(" ++ fragment ++ ")") construct := by
  obtain ⟨symbols, -, h⟩ := h
  have hsplit {text : List Char} (htext : ("(" ++ fragment ++ ")" : Fragment).LaidOut text) :
      ∃ own, text = '(' :: own ++ [')'] ∧ fragment.LaidOut own := by
    obtain ⟨front, rfl, hfront⟩ := htext.of_append_ofString
    obtain ⟨own, rfl, hown⟩ := hfront.of_ofString_append
    exact ⟨own, rfl, hown⟩
  refine ⟨.mark .openParen :: (symbols ++ [.mark .closeParen]), .paren _, ?_, ?_, ?_⟩
  · intro text rest more htext _ hrest
    obtain ⟨own, rfl, hown⟩ := hsplit htext
    have hinside := h.lexes hown (endsIdentifier_cons (by decide) rest) hrest.closeParen
    simpa using hinside.openParen
  · intro more rest result hbehind
    have hsuffixes : Place.behind construct = .suffixes ⟨construct, none⟩ := by
      cases construct <;> first | rfl | cases hlambda
    rw [hsuffixes] at hbehind
    have hinside : Reads .expression (symbols ++ .mark .closeParen :: more) ⟨construct, none⟩ _ :=
      h.reads_whole rfl
    simpa using Reads.suffixed (.parenthesized hinside) hbehind
  · intro text htext
    obtain ⟨own, rfl, -⟩ := hsplit htext
    exact (endsInCode_singleton (by decide)).append _

theorem spells_name (hname : IsName name) :
    Spells (.ofString name) (.reference name) := by
  refine ⟨[.word name], ⟨fun _ => .word name, fun hlambda => by cases hlambda⟩, ?_, ?_, ?_⟩
  · intro text rest more htext hends hrest
    rw [htext.eq_of_ofString]
    exact lexes_name hname hends hrest
  · intro more rest result hbehind
    exact .suffixed .word hbehind
  · intro text htext
    rw [htext.eq_of_ofString]
    exact endsInCode_name hname

/-! ## Suffixes -/

/-- The text goes on with an expression before it. -/
structure Suffix (text : List Char) (symbols : List Symbol) : Prop where
  ends (rest : List Char) : EndsIdentifier (text ++ rest)
  lexes {rest : List Char} {more : List Symbol} :
    EndsIdentifier rest → Lexes rest more → Lexes (text ++ rest) (symbols ++ more)
  endsInCode : EndsInCode text

theorem SpellsOperand.suffix (h : SpellsOperand fragment base) (first : Symbol) (symbols)
    (hfirst : first.isSuffixInLine = true) (hconstruct : construct.isLambda = false)
    (hsplit : ∀ {text}, whole.LaidOut text → ∃ front tail, text = front ++ tail ∧
      fragment.LaidOut front ∧ Suffix tail (first :: symbols))
    (hreads : ∀ {more result rest}, Reads (.behind construct) more result rest →
      Reads (.behind base) (first :: (symbols ++ more)) result rest) : Spells whole construct := by
  obtain ⟨baseSymbols, hopening, h⟩ := h
  refine ⟨baseSymbols ++ first :: symbols, ⟨fun _ => hopening.append hfirst symbols,
    fun hlambda => by simp [hconstruct] at hlambda⟩, ?_, ?_, ?_⟩
  · intro text rest more htext hends hrest
    obtain ⟨front, tail, rfl, hfront, htail⟩ := hsplit htext
    simpa using h.lexes hfront (htail.ends rest) (htail.lexes hends hrest)
  · intro more rest result hbehind
    simpa using h.reads (hreads hbehind)
  · intro text htext
    obtain ⟨front, tail, rfl, hfront, htail⟩ := hsplit htext
    exact htail.endsInCode.append front

theorem SpellsOperand.member (h : SpellsOperand fragment base) (hname : IsName name) (safe : Bool) :
    Spells (fragment ++ (if safe then "?." else ".") ++ name) (.member ⟨base, none⟩ name safe) := by
  have hsplit {sign : String} {symbols : List Symbol}
      (hsuffix : Suffix (sign.toList ++ name.toList) symbols) {text : List Char}
      (htext : (fragment ++ .ofString sign ++ .ofString name).LaidOut text) :
      ∃ front tail, text = front ++ tail ∧ fragment.LaidOut front ∧ Suffix tail symbols := by
    obtain ⟨before, rfl, hbefore⟩ := htext.of_append_ofString
    obtain ⟨front, rfl, hfront⟩ := hbefore.of_append_ofString
    exact ⟨front, _, List.append_assoc _ _ _, hfront, hsuffix⟩
  cases safe with
  | true =>
    have hsuffix : Suffix ("?.".toList ++ name.toList) [.mark .safeDot, .word name] :=
      ⟨fun rest => endsIdentifier_cons (by decide) _,
        fun hends hrest => (lexes_name hname hends hrest).safeDot,
        (endsInCode_name hname).append _⟩
    refine h.suffix (.mark .safeDot) [.word name] rfl rfl (hsplit hsuffix) fun hbehind => ?_
    exact .behind (.safeMember rfl hbehind) fun heq => by cases heq
  | false =>
    obtain ⟨c, cs, hchars, -, hc⟩ := hname.exists_cons
    have hdot {rest : List Char} {more : List Symbol} (hends : EndsIdentifier rest)
        (hrest : Lexes rest more) :
        Lexes ('.' :: (name.toList ++ rest)) (.mark .dot :: .word name :: more) := by
      have hlexes := lexes_name hname hends hrest
      rw [hchars] at hlexes ⊢
      exact hlexes.dot (by grind)
    have hsuffix : Suffix (".".toList ++ name.toList) [.mark .dot, .word name] :=
      ⟨fun rest => endsIdentifier_cons (by decide) _, hdot, (endsInCode_name hname).append _⟩
    refine h.suffix (.mark .dot) [.word name] rfl rfl (hsplit hsuffix) fun hbehind => ?_
    exact .behind (.member rfl hbehind) fun heq => by cases heq

/-! ## Arguments -/

/-- All texts of the fragment are the argument, as the last one or with others behind it. -/
structure ArgumentSpelling (fragment : Fragment) (symbols : List Symbol)
    (argument : Argument Node) : Prop where
  lexes : LexesAs fragment symbols
  last {callee node : Node} {args : List (Argument Node)} {more rest : List Symbol} :
    Reads (.trailing callee (args ++ [argument])) more node rest →
      Reads (.arguments callee args) (symbols ++ .mark .closeParen :: more) node rest
  next {callee node : Node} {args : List (Argument Node)} {more rest : List Symbol} :
    Reads (.arguments callee (args ++ [argument])) more node rest →
      Reads (.arguments callee args) (symbols ++ .mark .comma :: more) node rest

def SpellsArgument (fragment : Fragment) (argument : Argument Node) : Prop :=
  ∃ symbols, ArgumentSpelling fragment symbols argument

theorem Spelling.argumentSpelling (h : Spelling fragment valueSymbols value)
    (hlexes : LexesAs whole symbols)
    (hsplit : ∀ {more}, more.head? ≠ some (.mark .equals) →
      splitName (symbols ++ more) = (name, valueSymbols ++ more)) :
    ArgumentSpelling whole symbols ⟨name, ⟨value, none⟩⟩ := by
  refine ⟨hlexes, ?_, ?_⟩
  · intro callee node args more rest htrailing
    have hname : splitName (symbols ++ .mark .closeParen :: more) = _ := hsplit (by simp)
    refine .lastArgument (by rw [hname]; exact h.reads_whole rfl) ?_
    rw [hname]
    exact htrailing
  · intro callee node args more rest hnext
    have hname : splitName (symbols ++ .mark .comma :: more) = _ := hsplit (by simp)
    refine .nextArgument (by rw [hname]; exact h.reads_whole rfl) ?_
    rw [hname]
    exact hnext

theorem Spells.argument (h : Spells fragment value) :
    SpellsArgument fragment ⟨none, ⟨value, none⟩⟩ := by
  obtain ⟨symbols, hbegins, h⟩ := h
  exact ⟨symbols, h.argumentSpelling h.lexes hbegins.splitName⟩

theorem Spells.namedArgument (h : Spells fragment value) (hname : IsName name) :
    SpellsArgument (s!"{name} = " ++ fragment) ⟨some name, ⟨value, none⟩⟩ := by
  obtain ⟨symbols, -, h⟩ := h
  refine ⟨.word name :: .mark .equals :: symbols, h.argumentSpelling ?_ fun _ => rfl⟩
  intro text rest more htext hends hrest
  obtain ⟨own, rfl, hown⟩ := htext.of_ofString_append
  have hequals := (h.lexes hown hends hrest).equals
  have hnamed := lexes_name hname (endsIdentifier_cons (by decide) _) hequals
  show Lexes ((name ++ " = ").toList ++ own ++ rest) _
  simpa using hnamed

section Arguments

variable {ι : Type}

/-- Arguments with commas between them, and the closing parenthesis. -/
theorem exists_symbols_of_arguments (first : ι) (items : List ι)
    (h : ∀ item ∈ first :: items, SpellsArgument (fragment item) (argument item)) :
    ∃ symbols,
      (∀ {text rest more}, (Fragment.separated ", " ((first :: items).map fragment)).LaidOut text →
        Lexes rest more → Lexes (text ++ ')' :: rest) (symbols ++ more)) ∧
      ∀ {callee node args more rest},
        Reads (.trailing callee (args ++ (first :: items).map argument)) more node rest →
          Reads (.arguments callee args) (symbols ++ more) node rest := by
  induction items generalizing first with
  | nil =>
    obtain ⟨symbols, hfirst⟩ := h first List.mem_cons_self
    refine ⟨symbols ++ [.mark .closeParen], ?_, ?_⟩
    · intro text rest more htext hrest
      obtain ⟨own, htext, hown⟩ := htext.of_append_ofString
      rw [htext]
      simpa using hfirst.lexes hown (endsIdentifier_cons (by decide) rest) hrest.closeParen
    · intro callee node args more rest htrailing
      simpa using hfirst.last htrailing
  | cons next items ih =>
    obtain ⟨symbols, hfirst⟩ := h first List.mem_cons_self
    obtain ⟨others, hlexes, hreads⟩ :=
      ih next fun item hitem => h item (List.mem_cons_of_mem _ hitem)
    refine ⟨symbols ++ .mark .comma :: others, ?_, ?_⟩
    · intro text rest more htext hrest
      rw [List.map_cons, List.map_cons, Grammar.Fragment.separated_cons_cons] at htext
      obtain ⟨own, tail, rfl, hown, htail⟩ := htext.split
      obtain ⟨behind, rfl, hbehind⟩ := htail.of_ofString_append
      have hcomma := (hlexes hbehind hrest).comma
      simpa using hfirst.lexes hown (endsIdentifier_cons (by decide) _) hcomma
    · intro callee node args more rest htrailing
      have hothers :
          Reads (.arguments callee (args ++ [argument first])) (others ++ more) node rest :=
        hreads (by simpa using htrailing)
      simpa using hfirst.next hothers

theorem exists_symbols_of_argumentList (items : List ι)
    (h : ∀ item ∈ items, SpellsArgument (fragment item) (argument item)) :
    ∃ symbols,
      (∀ {text rest more}, (Fragment.separated ", " (items.map fragment)).LaidOut text →
        Lexes rest more → Lexes (text ++ ')' :: rest) (symbols ++ more)) ∧
      ∀ {callee node more rest}, Reads (.trailing callee (items.map argument)) more node rest →
        Reads (.arguments callee []) (symbols ++ more) node rest := by
  cases items with
  | nil =>
    refine ⟨[.mark .closeParen], ?_, fun htrailing => .noArguments htrailing⟩
    intro text rest more htext hrest
    rw [htext.eq_of_ofString]
    exact hrest.closeParen
  | cons first items =>
    obtain ⟨symbols, hlexes, hreads⟩ := exists_symbols_of_arguments first items h
    exact ⟨symbols, hlexes, fun htrailing => hreads htrailing⟩

variable (h : SpellsOperand callee base)

include h

theorem SpellsOperand.call (items : List ι)
    (hitems : ∀ item ∈ items, SpellsArgument (fragment item) (argument item)) :
    Spells (callee ++ ("(" ++ Fragment.separated ", " (items.map fragment) ++ ")"))
      (.call ⟨base, none⟩ (items.map argument) none) := by
  obtain ⟨symbols, hlexes, hreads⟩ := exists_symbols_of_argumentList items hitems
  refine h.suffix (.mark .openParen) symbols rfl rfl (fun htext => ?_) fun hbehind => ?_
  · obtain ⟨front, tail, rfl, hfront, htail⟩ := htext.split
    obtain ⟨inside, rfl, hinside⟩ := htail.of_append_ofString
    obtain ⟨own, rfl, hown⟩ := hinside.of_ofString_append
    refine ⟨front, _, rfl, hfront, ?_, ?_, (endsInCode_singleton (by decide)).append _⟩
    · exact fun rest => endsIdentifier_cons (by decide) _
    · intro rest more _ hrest
      simpa using (hlexes hown hrest).openParen
  · exact .behind (.called (hreads hbehind)) fun heq => by cases heq

/-- A lambda behind the arguments. -/
theorem SpellsOperand.callTrailing (items : List ι)
    (hitems : ∀ item ∈ items, SpellsArgument (fragment item) (argument item))
    (hspells : Spells fragmentOfLambda lambda) (hlambda : lambda.isLambda = true) :
    Spells (callee ++
        ("(" ++ Fragment.separated ", " (items.map fragment) ++ ") " ++ fragmentOfLambda))
      (.call ⟨base, none⟩ (items.map argument) (some ⟨lambda, none⟩)) := by
  obtain ⟨symbols, hlexes, hreads⟩ := exists_symbols_of_argumentList items hitems
  obtain ⟨trailing, hbegins, hspelling⟩ := hspells
  refine h.suffix (.mark .openParen) (symbols ++ trailing) rfl rfl (fun htext => ?_)
    fun hbehind => ?_
  · obtain ⟨front, tail, rfl, hfront, htail⟩ := htext.split
    obtain ⟨before, behind, rfl, hbefore, hbehind⟩ := htail.split
    obtain ⟨inside, rfl, hinside⟩ := hbefore.of_append_ofString
    obtain ⟨own, rfl, hown⟩ := hinside.of_ofString_append
    refine ⟨front, _, rfl, hfront, ?_, ?_, ?_⟩
    · exact fun rest => endsIdentifier_cons (by decide) _
    · intro rest more hends hrest
      have htrailing := Lexes.blank (hspelling.lexes hbehind hends hrest)
      simpa using (hlexes hown htrailing).openParen
    · exact (hspelling.endsInCode hbehind).append _
  · have htrailing : Reads (.trailing ⟨base, none⟩ (items.map argument)) (trailing ++ _) _ _ :=
      .trailing (by rw [hbegins.skipBreaks]; exact hbegins.lambda hlambda _) hbehind
    have hcalled := hreads htrailing
    exact .behind (.called (by simpa using hcalled)) fun heq => by cases heq

/-- A lambda in the place of arguments. -/
theorem SpellsOperand.apply (hspells : Spells fragmentOfLambda lambda)
    (hlambda : lambda.isLambda = true) :
    Spells (callee ++ (" " ++ fragmentOfLambda)) (base.applied ⟨lambda, none⟩) := by
  obtain ⟨trailing, hbegins, hspelling⟩ := hspells
  obtain ⟨inner, rfl⟩ := hbegins.exists_openBrace hlambda
  have happlied : (base.applied ⟨lambda, none⟩).isLambda = false := by
    unfold Construct.applied
    split <;> rfl
  refine h.suffix .openBrace inner rfl happlied (fun htext => ?_) fun hbehind => ?_
  · obtain ⟨front, tail, rfl, hfront, htail⟩ := htext.split
    obtain ⟨own, rfl, hown⟩ := htail.of_ofString_append
    refine ⟨front, _, rfl, hfront, ?_, ?_, ?_⟩
    · exact fun rest => endsIdentifier_cons (by decide) _
    · exact fun hends hrest => .blank (hspelling.lexes hown hends hrest)
    · exact (hspelling.endsInCode hown).append _
  · exact .behind_lambda (hbegins.lambda hlambda _) hbehind

end Arguments

end CallGrammar

end SwiftToKotlin.Kotlin
