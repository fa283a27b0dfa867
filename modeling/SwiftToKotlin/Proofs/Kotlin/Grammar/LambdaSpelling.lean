import SwiftToKotlin.Proofs.Kotlin.Grammar.CallSpelling

/-!
# Fragments that spell a lambda

The statements of a lambda stand in one line with its braces or on lines between them. There a
statement that is a lambda goes to the statement before it. A single parameter named `it` is not
written, so that the lambda is read as one without parameters.
-/

namespace SwiftToKotlin.Kotlin

/-! ## What is read -/

/-- Statements on lines below each other as they are read, the first of them first. -/
def joinBehind (first : Construct Node) : List (Construct Node) → List (Construct Node)
  | [] => [first]
  | next :: rest =>
    if next.isLambda then joinBehind (first.applied ⟨next, none⟩) rest
    else first :: joinBehind next rest

/-- Statements on lines below each other as they are read: a lambda goes to the statement before
it. -/
def joinStatements : List (Construct Node) → List (Construct Node)
  | [] => []
  | first :: rest => joinBehind first rest

/-- The parameters that are written. -/
def spokenNames : List String → List String
  | ["it"] => []
  | names => names

theorem lambdaHeader_eq (names) :
    Written.lambdaHeader names =
      if spokenNames names = [] then "" else ", ".intercalate (spokenNames names) ++ " ->" := by
  unfold Written.lambdaHeader
  split
  · rfl
  · rfl
  next hnil hit =>
    have hspoken : spokenNames names = names := by
      unfold spokenNames
      split
      · exact absurd rfl hit
      · rfl
    rw [hspoken, if_neg hnil]

theorem mem_of_mem_spokenNames (h : name ∈ spokenNames names) : name ∈ names := by
  unfold spokenNames at h
  split at h
  · cases h
  · exact h

namespace CallGrammar

open Grammar (IsName EndsIdentifier)

/-! ## Parameters -/

def headerSymbols : List String → List Symbol
  | [] => []
  | [name] => [.word name, .arrow]
  | name :: next :: rest => .word name :: .mark .comma :: headerSymbols (next :: rest)

theorem splitNames_headerSymbols (names) (hmore : readNames more = none) :
    splitNames (headerSymbols names ++ more) = (names, more) := by
  have hread (first : String) (rest : List String) :
      readNames (headerSymbols (first :: rest) ++ more) = some (first :: rest, more) := by
    induction rest generalizing first with
    | nil => rfl
    | cons next rest ih =>
      show (readNames (headerSymbols (next :: rest) ++ more)).map _ = _
      rw [ih]
      rfl
  cases names with
  | nil =>
    rw [splitNames, headerSymbols, List.nil_append, hmore]
    rfl
  | cons first rest =>
    rw [splitNames, hread]
    rfl

theorem lexes_header (first : String) (rest) (hnames : ∀ name ∈ first :: rest, IsName name)
    (h : Lexes text symbols) :
    Lexes ((", ".intercalate (first :: rest)).toList ++ ' ' :: '-' :: '>' :: text)
      (headerSymbols (first :: rest) ++ symbols) := by
  induction rest generalizing first with
  | nil =>
    exact lexes_name (hnames first List.mem_cons_self) (endsIdentifier_cons (by decide) _) h.arrow
  | cons next rest ih =>
    have hcomma := (ih next fun name hname => hnames name (List.mem_cons_of_mem _ hname)).comma
    have hfirst := lexes_name (hnames first List.mem_cons_self)
      (endsIdentifier_cons (by decide) _) hcomma
    simpa [headerSymbols] using hfirst

/-- The brace and the parameters behind it. -/
def lambdaOpening (names : List String) : String :=
  if (Written.lambdaHeader names).isEmpty then "\x7b" else "\x7b " ++ Written.lambdaHeader names

theorem lexes_lambdaOpening (hnames : ∀ name ∈ names, IsName name) (h : Lexes text symbols) :
    Lexes ((lambdaOpening names).toList ++ text)
      (.openBrace :: (headerSymbols (spokenNames names) ++ symbols)) := by
  have hspoken : ∀ name ∈ spokenNames names, IsName name :=
    fun name hname => hnames name (mem_of_mem_spokenNames hname)
  rw [lambdaOpening, lambdaHeader_eq]
  cases hnames : spokenNames names with
  | nil => exact h.openBrace
  | cons first rest =>
    rw [hnames] at hspoken
    have hheader := (Lexes.blank (lexes_header first rest hspoken h)).openBrace
    simpa using hheader

/-! ## Statements -/

theorem endsIdentifier_of_laid (h : Laid lines text) (hends : EndsIdentifier rest) :
    EndsIdentifier (text ++ rest) := by
  cases h with
  | nil => exact hends
  | cons blanks h => exact endsIdentifier_cons (by decide) _

/-- A statement from the beginning of a line, with lines below it. -/
theorem Spelling.lexes_lines (h : Spelling fragment own construct) (hends : EndsIdentifier rest)
    (hlexes : ∀ {below}, Laid lines below → Lexes (below ++ rest) symbols)
    (htext : Laid (fragment.lines ++ lines) text) :
    Lexes (text ++ rest) (.lineBreak :: (own ++ symbols)) := by
  obtain ⟨line, below, rfl, hline, hbelow⟩ := htext.split
  obtain ⟨blanks, chars, rfl, hchars⟩ := Fragment.exists_laidOut_of_lines hline
  have hstatement := h.lexes hchars (endsIdentifier_of_laid hbelow hends) (hlexes hbelow)
  simpa using hstatement.lineBreak blanks

section Statements

variable {ι : Type}

/-- Statements behind a first one, each on a line of its own. The statement that is read first is
what the lambdas behind the first one make of it. -/
theorem exists_symbols_of_statements (items : List ι)
    (h : ∀ item ∈ items, Spells (fragment item) (construct item)) :
    ∃ symbols,
      (∀ {text rest more}, Laid (stacked (items.map fragment)) text → EndsIdentifier rest →
        Lexes rest more → Lexes (text ++ rest) (symbols ++ more)) ∧
      ∀ first names body more, ∃ statement behind,
        Reads (.behind first) (symbols ++ .lineBreak :: .closeBrace :: more) statement behind ∧
        behind.head?.any Symbol.endsStatement = true ∧
        Reads (.statements names (body ++ [statement])) behind
          ⟨.lambda names (body ++ (joinBehind first (items.map construct)).map (⟨·, none⟩)), none⟩
          more := by
  induction items with
  | nil =>
    refine ⟨[], ?_, fun first names body more => ?_⟩
    · intro text rest more htext _ hrest
      cases htext
      exact hrest
    · refine ⟨⟨first, none⟩, _, .behind (.stop rfl) (fun heq => by cases heq), rfl, ?_⟩
      exact .close rfl
  | cons item items ih =>
    obtain ⟨own, hbegins, hspelling⟩ := h item List.mem_cons_self
    obtain ⟨symbols, hlexes, hreads⟩ :=
      ih fun other hother => h other (List.mem_cons_of_mem _ hother)
    refine ⟨.lineBreak :: (own ++ symbols), ?_, fun first names body more => ?_⟩
    · intro text rest more htext hends hrest
      simpa using hspelling.lexes_lines hends (fun hbelow => hlexes hbelow hends hrest) htext
    · -- the item is a lambda that goes to the first statement, or that statement ends before it
      let tail := own ++ (symbols ++ .lineBreak :: .closeBrace :: more)
      have hskip : skipBreaks (.lineBreak :: tail) = tail := hbegins.skipBreaks _
      cases hlambda : (construct item).isLambda with
      | true =>
        obtain ⟨statement, behind, hbehind, hstatement, hrest⟩ :=
          hreads (first.applied ⟨construct item, none⟩) names body more
        refine ⟨statement, behind, ?_, hstatement, ?_⟩
        · have hitem : Reads .lambda tail _ _ := hbegins.lambda hlambda _
          rw [← hskip] at hitem
          simpa using Reads.behind_lambda hitem hbehind
        · rw [List.map_cons, joinBehind, if_pos hlambda]
          exact hrest
      | false =>
        obtain ⟨statement, behind, hbehind, hstatement, hrest⟩ :=
          hreads (construct item) names (body ++ [⟨first, none⟩]) more
        have hopening := hbegins.opening hlambda
        have hstop : goesOn (.lineBreak :: tail) = false := by
          rw [goesOn, hskip, hopening.not_isSuffix]
          rfl
        refine ⟨⟨first, none⟩, .lineBreak :: tail, ?_, rfl, ?_⟩
        · have hne : tail.head? ≠ some .openBrace := hopening.head?_ne _
          rw [← hskip] at hne
          simpa using Reads.behind (.stop hstop) hne
        · refine .statement hstatement (by rw [hskip]; exact hspelling.reads hbehind) ?_
          rw [List.map_cons, joinBehind, if_neg (by simp [hlambda])]
          simpa using hrest

end Statements

/-! ## Lambdas -/

section Lambda

variable {names : List String} (hnames : ∀ name ∈ names, IsName name)

include hnames

theorem spells_lambda (inner)
    (hsplit : ∀ {text}, whole.LaidOut text → ∃ own, text = (lambdaOpening names).toList ++ own ∧
      EndsInCode own ∧ ∀ {rest more}, Lexes rest more →
        Lexes (own ++ rest) (inner ++ .closeBrace :: more))
    (hnone : ∀ more, readNames (inner ++ .closeBrace :: more) = none)
    (hreads : ∀ names more, Reads (.statements names []) (inner ++ .closeBrace :: more)
      ⟨.lambda names body, none⟩ more) :
    Spells whole (.lambda (spokenNames names) body) := by
  have hlambda (more : List Symbol) :
      Reads .lambda (.openBrace :: (headerSymbols (spokenNames names) ++
        (inner ++ .closeBrace :: more))) ⟨.lambda (spokenNames names) body, none⟩ more := by
    refine .lambda ?_
    rw [splitNames_headerSymbols _ (hnone more)]
    exact hreads _ more
  refine ⟨.openBrace :: (headerSymbols (spokenNames names) ++ (inner ++ [.closeBrace])),
    ⟨fun hfalse => (by cases hfalse), fun _ more => by simpa using hlambda more⟩, ?_, ?_, ?_⟩
  · intro text rest more htext _ hrest
    obtain ⟨own, rfl, -, hlexes⟩ := hsplit htext
    simpa using lexes_lambdaOpening hnames (hlexes hrest)
  · intro more rest result hbehind
    simpa using Reads.suffixed (.literal (hlambda more)) hbehind
  · intro text htext
    obtain ⟨own, rfl, hends, -⟩ := hsplit htext
    exact hends.append _

omit hnames in
theorem endsInCode_closeBrace : EndsInCode ['\x7d'] :=
  endsInCode_singleton (by decide)

theorem spells_emptyLambda :
    Spells (if (Written.lambdaHeader names).isEmpty then "\x7b\x7d"
      else .ofString (lambdaOpening names) ++ " \x7d") (.lambda (spokenNames names) []) := by
  refine spells_lambda hnames [] (fun {text} htext => ?_) (fun _ => rfl) fun _ _ => .close rfl
  split at htext
  next hheader =>
    refine ⟨['\x7d'], ?_, endsInCode_closeBrace, fun hrest => hrest.closeBrace⟩
    rw [htext.eq_of_ofString, lambdaOpening, if_pos hheader]
    rfl
  · obtain ⟨front, rfl, hfront⟩ := htext.of_append_ofString
    rw [hfront.eq_of_ofString]
    exact ⟨_, rfl, endsInCode_closeBrace.append [' '], fun hrest => .blank hrest.closeBrace⟩

theorem spells_inlineLambda (h : Spells value construct) :
    Spells (.ofString (lambdaOpening names) ++ " " ++ value ++ " \x7d")
      (.lambda (spokenNames names) [⟨construct, none⟩]) := by
  obtain ⟨symbols, hbegins, h⟩ := h
  refine spells_lambda hnames symbols (fun {text} htext => ?_)
    (fun more => hbegins.readNames rfl) ?_
  · obtain ⟨front, rfl, hfront⟩ := htext.of_append_ofString
    obtain ⟨before, own, rfl, hbefore, hown⟩ := hfront.split
    obtain ⟨opening, rfl, hopening⟩ := hbefore.of_append_ofString
    rw [hopening.eq_of_ofString]
    refine ⟨' ' :: (own ++ [' ', '\x7d']), by simp, ?_, fun {rest more} hrest => ?_⟩
    · simpa using endsInCode_closeBrace.append (' ' :: (own ++ [' ']))
    · have hclose : Lexes (' ' :: '\x7d' :: rest) (.closeBrace :: more) := .blank hrest.closeBrace
      simpa using Lexes.blank (h.lexes hown (endsIdentifier_cons (by decide) _) hclose)
  · intro names more
    refine .statement rfl (by rw [hbegins.skipBreaks]; exact h.reads_whole rfl) ?_
    exact .close rfl

variable {ι : Type}

theorem spells_blockLambda (first : ι) (items : List ι)
    (h : ∀ item ∈ first :: items, Spells (fragment item) (construct item)) :
    Spells (.ofString (lambdaOpening names) ++ .nested (stacked ((first :: items).map fragment)) ++
        ⟨"", [.code 0 "\x7d"]⟩)
      (.lambda (spokenNames names)
        ((joinStatements ((first :: items).map construct)).map (⟨·, none⟩))) := by
  obtain ⟨own, hbegins, hspelling⟩ := h first List.mem_cons_self
  obtain ⟨symbols, hlexes, hreads⟩ :=
    exists_symbols_of_statements items fun item hitem => h item (List.mem_cons_of_mem _ hitem)
  refine spells_lambda hnames (.lineBreak :: (own ++ (symbols ++ [.lineBreak])))
    (fun {text} htext => ?_) (fun _ => rfl) ?_
  · obtain ⟨front, tail, rfl, hfront, htail⟩ := htext.split
    obtain ⟨below, rfl, hbelow⟩ := hfront.of_ofString_append
    have hclose : ∃ blanks, tail = '\n' :: (List.replicate blanks ' ' ++ ['\x7d']) := by
      obtain ⟨last, hlast, rfl⟩ := htail
      cases hlast with
      | cons blanks hnil =>
        cases hnil
        exact ⟨blanks, by simp [Line.text]⟩
    obtain ⟨blanks, rfl⟩ := hclose
    refine ⟨below ++ '\n' :: (List.replicate blanks ' ' ++ ['\x7d']), by simp, ?_, ?_⟩
    · simpa using endsInCode_closeBrace.append (below ++ '\n' :: List.replicate blanks ' ')
    · intro rest more hrest
      have hends : EndsIdentifier ('\n' :: (List.replicate blanks ' ' ++ '\x7d' :: rest)) :=
        endsIdentifier_cons (by decide) _
      have hbrace := hrest.closeBrace.lineBreak blanks
      have hall := hspelling.lexes_lines hends (fun hlines => hlexes hlines hends hbrace)
        hbelow.of_nested
      simpa using hall
  · intro names more
    obtain ⟨statement, behind, hbehind, hstatement, hrest⟩ := hreads (construct first) names [] more
    let tail := own ++ (symbols ++ .lineBreak :: .closeBrace :: more)
    have hskip : skipBreaks (.lineBreak :: tail) = tail := hbegins.skipBreaks _
    have hfirst : Reads .expression tail statement behind := hspelling.reads hbehind
    rw [← hskip] at hfirst
    simpa [joinStatements] using Reads.statement hstatement hfirst hrest

end Lambda

end CallGrammar

end SwiftToKotlin.Kotlin
