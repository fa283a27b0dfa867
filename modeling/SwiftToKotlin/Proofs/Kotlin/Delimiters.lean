import Mathlib.Data.List.Chain
import SwiftToKotlin.Kotlin.Source

/-!
# Delimiters of a text

A scanner goes through Kotlin source character by character. It knows whether it is in code, in a
string or in a comment, and which brackets are open; a string goes on where a template `${…}` in it
closes, and comments nest. A text is balanced if the scanner comes out of it as it went in, whatever
is open around it. Names, strings, comments and types are balanced as they are written, and how far
lines are indented does not matter.
-/

namespace SwiftToKotlin.Kotlin

/-! ## The scanner -/

/-- What is open in code. A template is opened in a string and closed by a brace. -/
inductive Bracket
  | paren
  | square
  | brace
  | template
  deriving DecidableEq

/-- A comment counts the comments that it is in. -/
inductive Mode
  | code
  | text
  | comment (around : Nat)
  deriving DecidableEq

/-- The state of a scanner, with the character before if it may form a pair with the next. -/
structure Scanner where
  mode : Mode := .code
  stack : List Bracket := []
  last : Option Char := none
  deriving DecidableEq

namespace Scanner

abbrev code (stack : List Bracket) : Scanner :=
  ⟨.code, stack, none⟩

abbrev inText (stack : List Bracket) : Scanner :=
  ⟨.text, stack, none⟩

/-- A bracket is closed only by its own counterpart. -/
def stepCode (stack : List Bracket) (last : Option Char) (c : Char) : Option Scanner :=
  if last = some '/' ∧ c = '*' then some ⟨.comment 0, stack, none⟩
  else match c with
    | '/' => some ⟨.code, stack, some '/'⟩
    | '"' => some (inText stack)
    | '(' => some (code (.paren :: stack))
    | '[' => some (code (.square :: stack))
    | '\x7b' => some (code (.brace :: stack))
    | ')' =>
      match stack with
      | .paren :: outer => some (code outer)
      | _ => none
    | ']' =>
      match stack with
      | .square :: outer => some (code outer)
      | _ => none
    | '\x7d' =>
      match stack with
      | .brace :: outer => some (code outer)
      | .template :: outer => some (inText outer)
      | _ => none
    | _ => some (code stack)

def stepText (stack : List Bracket) (last : Option Char) (c : Char) : Option Scanner :=
  if last = some '\\' then some (inText stack)
  else if last = some '$' ∧ c = '\x7b' then some (code (.template :: stack))
  else match c with
    | '"' => some (code stack)
    | '\\' => some ⟨.text, stack, some '\\'⟩
    | '$' => some ⟨.text, stack, some '$'⟩
    | _ => some (inText stack)

def stepComment (around : Nat) (stack : List Bracket) (last : Option Char) (c : Char) :
    Option Scanner :=
  if last = some '*' ∧ c = '/' then
    match around with
    | 0 => some (code stack)
    | outer + 1 => some ⟨.comment outer, stack, none⟩
  else if last = some '/' ∧ c = '*' then some ⟨.comment (around + 1), stack, none⟩
  else some ⟨.comment around, stack, if c = '*' ∨ c = '/' then some c else none⟩

def step : Scanner → Char → Option Scanner
  | ⟨.code, stack, last⟩ => stepCode stack last
  | ⟨.text, stack, last⟩ => stepText stack last
  | ⟨.comment around, stack, last⟩ => stepComment around stack last

/-- Goes through a text, unless a bracket is closed by another. -/
def scan (scanner : Scanner) (text : List Char) : Option Scanner :=
  text.foldlM step scanner

@[simp] theorem scan_nil (scanner : Scanner) : scanner.scan [] = some scanner :=
  rfl

theorem scan_append (scanner : Scanner) (first second) :
    scanner.scan (first ++ second) = (scanner.scan first).bind (scan · second) :=
  List.foldlM_append

theorem scan_cons (scanner : Scanner) (c : Char) (rest) :
    scanner.scan (c :: rest) = (scanner.step c).bind (scan · rest) :=
  List.foldlM_cons

/-- Characters that mean something to a scanner in code. -/
def delimiters : List Char :=
  ['(', ')', '[', ']', '\x7b', '\x7d', '"', '/']

theorem stepCode_of_not_mem (h : c ∉ delimiters) (stack) {last : Option Char}
    (hlast : ¬ (last = some '/' ∧ c = '*')) :
    stepCode stack last c = some (code stack) := by
  unfold stepCode
  rw [if_neg hlast]
  split
  iterate 8 exact absurd (by decide) h
  rfl

/-- Characters that mean something to a scanner in any mode. -/
def marks : List Char :=
  delimiters ++ ['*', '\\', '$']

theorem stepText_of_ne (hquote : c ≠ '"') (hbackslash : c ≠ '\\') (hdollar : c ≠ '$') (stack)
    {last : Option Char} (hlast : ¬ (last = some '$' ∧ c = '\x7b')) :
    stepText stack last c = some (inText stack) := by
  unfold stepText
  split
  · rfl
  · split
    · exact absurd rfl hquote
    · exact absurd rfl hbackslash
    · exact absurd rfl hdollar
    · rfl

/-- What means nothing is passed over and forms no pair. -/
theorem step_of_not_mem_marks (h : c ∉ marks) (scanner : Scanner) :
    scanner.step c = some ⟨scanner.mode, scanner.stack, none⟩ := by
  have hne {d : Char} (hd : d ∈ marks) : c ≠ d := fun heq => h (heq ▸ hd)
  obtain ⟨mode, stack, last⟩ := scanner
  cases mode with
  | code =>
    have hdelimiter : c ∉ delimiters := fun hmem => h (List.mem_append_left _ hmem)
    exact stepCode_of_not_mem hdelimiter stack fun hpair => hne (by decide) hpair.2
  | text =>
    exact stepText_of_ne (hne (by decide)) (hne (by decide)) (hne (by decide)) stack
      fun hpair => hne (by decide) hpair.2
  | comment around =>
    have hslash : c ≠ '/' := hne (by decide)
    have hstar : c ≠ '*' := hne (by decide)
    simp [step, stepComment, hslash, hstar]

theorem not_mem_marks_of_all {p : Char → Bool} (hmarks : marks.all (!p ·) = true) (h : p c = true) :
    c ∉ marks := by
  intro hmem
  have hmark := List.all_eq_true.1 hmarks c hmem
  rw [h] at hmark
  cases hmark

theorem not_mem_marks_of_isBlank (h : Text.isBlank c = true) : c ∉ marks :=
  not_mem_marks_of_all (by decide) h

theorem not_mem_marks_of_isNameChar (h : Text.isNameChar c = true) : c ∉ marks :=
  not_mem_marks_of_all (by decide) h

/-- Blanks do not change what is open. -/
theorem scan_blanks (h : ∀ c ∈ blanks, Text.isBlank c = true) (scanner : Scanner) :
    ∃ last, scanner.scan blanks = some ⟨scanner.mode, scanner.stack, last⟩ := by
  induction blanks generalizing scanner with
  | nil => exact ⟨scanner.last, rfl⟩
  | cons c rest ih =>
    obtain ⟨hc, hrest⟩ := List.forall_mem_cons.1 h
    obtain ⟨last, hlast⟩ := ih hrest ⟨scanner.mode, scanner.stack, none⟩
    refine ⟨last, ?_⟩
    rw [scan_cons, step_of_not_mem_marks (not_mem_marks_of_isBlank hc)]
    exact hlast

end Scanner

open Scanner (code inText)

/-! ## Balanced texts -/

/-- Scanning the text leads from one state to the other. -/
def Leads (text : List Char) (before after : Scanner) : Prop :=
  before.scan text = some after

theorem Leads.append (h : Leads first before between) (h' : Leads second between after) :
    Leads (first ++ second) before after := by
  rw [Leads, Scanner.scan_append, h]
  exact h'

/-- In code the text leaves all as it is, whatever is open. -/
def Balanced (text : List Char) : Prop :=
  ∀ stack, Leads text (code stack) (code stack)

/-- In a string the text neither ends it nor leaves anything open. -/
def StaysInText (text : List Char) : Prop :=
  ∀ stack, Leads text (inText stack) (inText stack)

namespace Balanced

/-- Code that is balanced makes no difference to a scanner. -/
theorem scan_append {inner : List Char} (h : Balanced inner) (stack) :
    (code stack).scan (inner ++ rest) = (code stack).scan rest := by
  rw [Scanner.scan_append, h stack, Option.bind_some]

theorem scan {inner : List Char} (h : Balanced inner) (stack) :
    (code stack).scan inner = some (code stack) :=
  h stack

theorem nil : Balanced [] :=
  fun _ => rfl

theorem append (h : Balanced first) (h' : Balanced second) : Balanced (first ++ second) :=
  fun stack => (h stack).append (h' stack)

theorem flatMap {α : Type} {items : List α} {f : α → List Char}
    (h : ∀ item ∈ items, Balanced (f item)) : Balanced (items.flatMap f) := by
  induction items with
  | nil => exact nil
  | cons item rest ih =>
    obtain ⟨hitem, hrest⟩ := List.forall_mem_cons.1 h
    exact hitem.append (ih hrest)

theorem text {first : String} (h : Balanced first.toList) (h' : Balanced next.toList) :
    Balanced (first ++ next).toList := by
  rw [String.toList_append]
  exact h.append h'

end Balanced

theorem StaysInText.append (h : StaysInText first) (h' : StaysInText second) :
    StaysInText (first ++ second) :=
  fun stack => (h stack).append (h' stack)

/-! ## Words -/

/-- No character of the word is a delimiter. -/
def FreeOfDelimiters (word : String) : Prop :=
  ∀ c ∈ word.toList, c ∉ Scanner.delimiters

instance (word : String) : Decidable (FreeOfDelimiters word) :=
  List.decidableBAll (· ∉ Scanner.delimiters) word.toList

theorem FreeOfDelimiters.balanced (h : FreeOfDelimiters word) : Balanced word.toList := by
  intro stack
  unfold FreeOfDelimiters at h
  generalize word.toList = text at h ⊢
  induction text with
  | nil => rfl
  | cons c rest ih =>
    obtain ⟨hc, hrest⟩ := List.forall_mem_cons.1 h
    rw [Leads, Scanner.scan_cons, Scanner.step, Scanner.stepCode_of_not_mem hc stack (by simp)]
    exact ih hrest

attribute [local simp] Balanced.scan_append Balanced.scan Scanner.scan_cons Scanner.step
  Scanner.stepCode Scanner.stepText Leads FreeOfDelimiters.balanced toString

/-! ## Strings -/

theorem staysInText_escapeChar (c : Char) : StaysInText (escapeChar c) := by
  intro stack
  unfold escapeChar
  split
  iterate 6 rfl
  · next hquote hbackslash _ _ _ hdollar =>
    rw [Leads, Scanner.scan_cons, Scanner.step,
      Scanner.stepText_of_ne hquote hbackslash hdollar stack (by simp)]
    rfl

/-- An escaped text stays in its string. -/
theorem staysInText_escaped (text : String) : StaysInText (escaped text).toList := by
  rw [escaped, String.toList_ofList]
  intro stack
  induction text.toList with
  | nil => rfl
  | cons c rest ih =>
    exact (staysInText_escapeChar c stack).append ih

theorem balanced_stringLiteral (text : String) : Balanced (stringLiteral text).toList := by
  intro stack
  have hescaped := staysInText_escaped text stack
  simp_all [stringLiteral, Scanner.scan_append]

/-- A template may name an identifier without braces. -/
theorem staysInText_identifier (h : isPlainIdentifier name = true) :
    StaysInText ('$' :: name.toList) := by
  intro stack
  rw [isPlainIdentifier] at h
  split at h
  · cases h
  next c cs hname =>
    obtain ⟨hc, hcs⟩ := (Bool.and_eq_true _ _).mp h
    have hfirst : Text.isNameChar c = true := by
      rcases Bool.or_eq_true _ _ |>.mp hc with hc | hc
      · simp [Text.isNameChar, Text.isAlphanumeric, hc]
      · simp [Text.isNameChar, hc]
    have hrest : ∀ d ∈ cs, d ∉ Scanner.marks := fun d hd =>
      Scanner.not_mem_marks_of_isNameChar (List.all_eq_true.1 hcs d hd)
    rw [hname, Leads, Scanner.scan_cons]
    change Scanner.scan ⟨.text, stack, some '$'⟩ (c :: cs) = _
    rw [Scanner.scan_cons,
      Scanner.step_of_not_mem_marks (Scanner.not_mem_marks_of_isNameChar hfirst)]
    clear hname h hcs
    induction cs with
    | nil => rfl
    | cons d rest ih =>
      obtain ⟨hd, hrest⟩ := List.forall_mem_cons.1 hrest
      change Scanner.scan (inText stack) (d :: rest) = _
      rw [Scanner.scan_cons, Scanner.step_of_not_mem_marks hd]
      exact ih hrest

/-! ## Comments -/

/-- The characters do not open or close a comment together. -/
def Apart (c d : Char) : Prop :=
  ¬ (c = '*' ∧ d = '/') ∧ ¬ (c = '/' ∧ d = '*')

theorem head?_setApart (a b : Char) (text) : (Text.setApart a b text).head? = text.head? := by
  fun_cases Text.setApart a b text with
  | case1 => rfl
  | case2 => rfl
  | case3 c d cs h => simp [h]
  | case4 c d cs h => simp

/-- Setting two characters apart mends a text in which no others are too close. -/
theorem isChain_setApart (hne : a ≠ b) (hspace : ∀ c, R c ' ' ∧ R ' ' c)
    (h : text.IsChain fun c d => R c d ∨ (c = a ∧ d = b)) :
    (Text.setApart a b text).IsChain R := by
  -- the first character stays the same, so that a neighbour before it sees no difference
  have hcons {c : Char} {rest : List Char} (hrest : (Text.setApart a b rest).IsChain R)
      (hfirst : ∀ d ∈ rest.head?, R c d) : (c :: Text.setApart a b rest).IsChain R := by
    rw [← head?_setApart a b] at hfirst
    exact List.isChain_cons.2 ⟨hfirst, hrest⟩
  fun_induction Text.setApart a b text with
  | case1 => exact .nil
  | case2 c => exact .singleton c
  | case3 c d cs hpair ih =>
    obtain ⟨rfl, rfl⟩ := hpair
    obtain ⟨hhead, htail⟩ := List.isChain_cons.1 (List.isChain_cons_cons.1 h).2
    refine .cons_cons (hspace _).1 (.cons_cons (hspace _).2 (hcons (ih htail) fun e he => ?_))
    exact (hhead e he).resolve_right fun hsame => hne hsame.1.symm
  | case4 c d cs hpair ih =>
    obtain ⟨hhead, htail⟩ := List.isChain_cons_cons.1 h
    refine hcons (ih htail) fun e he => ?_
    obtain rfl : d = e := by simpa using he
    exact hhead.resolve_right hpair

theorem isChain_apart (text) :
    (Text.setApart '/' '*' (Text.setApart '*' '/' text)).IsChain Apart := by
  have hinner : (Text.setApart '*' '/' text).IsChain fun c d => ¬ (c = '*' ∧ d = '/') := by
    refine isChain_setApart (by decide) (by simp) ?_
    induction text with
    | nil => exact .nil
    | cons c rest ih => exact List.isChain_cons.2 ⟨fun d _ => (em _).symm, ih⟩
  refine isChain_setApart (by decide) (by simp [Apart]) (hinner.imp fun c d h => ?_)
  by_cases hpair : c = '/' ∧ d = '*'
  · exact .inr hpair
  · exact .inl ⟨h, hpair⟩

/-- A comment goes on over a text without its own delimiters. -/
theorem exists_leads_in_comment (last) (h : (last.toList ++ text).IsChain Apart) (stack) :
    ∃ next, Leads text ⟨.comment 0, stack, last⟩ ⟨.comment 0, stack, next⟩ := by
  induction text generalizing last with
  | nil => exact ⟨last, rfl⟩
  | cons c rest ih =>
    have hapart : ∀ d ∈ last, Apart d c := by
      rintro d rfl
      exact (List.isChain_cons_cons.1 h).1
    have hrest : (c :: rest).IsChain Apart := by
      cases last with
      | none => exact h
      | some d => exact (List.isChain_cons_cons.1 h).2
    have hstep : Scanner.step ⟨.comment 0, stack, last⟩ c =
        some ⟨.comment 0, stack, if c = '*' ∨ c = '/' then some c else none⟩ := by
      rw [Scanner.step, Scanner.stepComment,
        if_neg fun hpair => (hapart '*' hpair.1).1 ⟨rfl, hpair.2⟩,
        if_neg fun hpair => (hapart '/' hpair.1).2 ⟨rfl, hpair.2⟩]
    obtain ⟨next, hnext⟩ := ih (if c = '*' ∨ c = '/' then some c else none) (by
      split
      · exact hrest
      · exact hrest.tail)
    refine ⟨next, ?_⟩
    rw [Leads, Scanner.scan_cons, hstep]
    exact hnext

theorem balanced_blockComment (text : String) : Balanced (blockComment text).toList := by
  intro stack
  have hapart := isChain_apart text.toList
  rw [blockComment, String.toList_append, String.toList_append]
  generalize Text.setApart '/' '*' (Text.setApart '*' '/' text.toList) = inside at hapart ⊢
  have hback : (String.ofList inside).toList = inside := String.toList_ofList
  obtain ⟨last, hinside⟩ := exists_leads_in_comment none hapart stack
  rw [hback]
  have hopen : Leads "/* ".toList (code stack) ⟨.comment 0, stack, none⟩ := rfl
  have hclose : Leads " */".toList ⟨.comment 0, stack, last⟩ (code stack) := by
    have hblank := Scanner.step_of_not_mem_marks (c := ' ') (by decide) ⟨.comment 0, stack, last⟩
    have hchars : " */".toList = [' ', '*', '/'] := rfl
    rw [Leads, hchars, Scanner.scan_cons, hblank]
    rfl
  exact (hopen.append hinside).append hclose

/-! ## Types -/

namespace Ty

mutual

/-- The names in a type. -/
def words : Ty → List String
  | named name args => name :: wordsOf args
  | nullable inner => inner.words
  | function params result => wordsOf params ++ result.words

def wordsOf : List Ty → List String
  | [] => []
  | first :: rest => first.words ++ wordsOf rest

end

theorem balanced_markable (ty : Ty) (h : Balanced text.toList) :
    Balanced (markable ty text).toList := by
  intro stack
  unfold markable
  split <;> simp [h]

mutual

theorem balanced_display : (ty : Ty) → (∀ word ∈ ty.words, FreeOfDelimiters word) →
    Balanced ty.display.toList
  | named name [], h => (h name (by simp [words])).balanced
  | named name (first :: rest), h => fun stack => by
    simp only [words, wordsOf, List.forall_mem_cons, List.forall_mem_append] at h
    simp [display, h.1, balanced_display first h.2.1, balanced_displayRest rest h.2.2]
  | nullable inner, h => fun stack => by
    simp [display, balanced_markable inner (balanced_display inner h)]
  | function params result, h => fun stack => by
    simp only [words, List.forall_mem_append] at h
    simp [display, balanced_displayAll params h.1, balanced_display result h.2]

theorem balanced_displayAll : (types : List Ty) → (∀ word ∈ wordsOf types, FreeOfDelimiters word) →
    Balanced (displayAll types).toList
  | [], _ => .nil
  | first :: rest, h => fun stack => by
    simp only [wordsOf, List.forall_mem_append] at h
    simp [displayAll, balanced_display first h.1, balanced_displayRest rest h.2]

theorem balanced_displayRest : (types : List Ty) → (∀ word ∈ wordsOf types, FreeOfDelimiters word) →
    Balanced (displayRest types).toList
  | [], _ => .nil
  | next :: rest, h => fun stack => by
    simp only [wordsOf, List.forall_mem_append] at h
    simp [displayRest, balanced_display next h.1, balanced_displayRest rest h.2]

end

end Ty

/-! ## Layout -/

/-- The line without its indentation, and the line break before it. -/
def Line.flat : Line → List Char
  | blank => ['\n']
  | code _ text => '\n' :: text.toList

def flatLines (lines : List Line) : List Char :=
  lines.flatMap Line.flat

@[simp] theorem flatLines_nil : flatLines [] = [] :=
  rfl

@[simp] theorem flatLines_cons (line : Line) (rest) :
    flatLines (line :: rest) = line.flat ++ flatLines rest :=
  rfl

@[simp] theorem flatLines_append (lines more) :
    flatLines (lines ++ more) = flatLines lines ++ flatLines more :=
  List.flatMap_append

@[simp] theorem flatLines_map_indent (lines) :
    flatLines (lines.map Line.indent) = flatLines lines := by
  rw [flatLines, List.flatMap_map]
  exact congrArg (List.flatMap · lines) (funext fun line => by cases line <;> rfl)

namespace Fragment

/-- The fragment without any indentation. -/
def flat (fragment : Fragment) : List Char :=
  fragment.head.toList ++ flatLines fragment.below

@[simp] theorem flat_ofString (text : String) : (ofString text).flat = text.toList :=
  List.append_nil _

theorem flatLines_continueLines (next : Fragment) (line : Line) (rest) :
    flatLines (continueLines next line rest) = flatLines (line :: rest) ++ next.flat := by
  induction rest generalizing line with
  | nil => cases line <;> simp [continueLines, Line.extend, Line.flat, flat]
  | cons other rest ih =>
    rw [continueLines, flatLines_cons, ih, flatLines_cons line, List.append_assoc]

@[simp] theorem flat_append (first next : Fragment) :
    (first ++ next).flat = first.flat ++ next.flat := by
  obtain ⟨head, below⟩ := first
  change (Fragment.append _ _).flat = _
  cases below with
  | nil => simp [Fragment.append, flat]
  | cons line rest =>
    rw [Fragment.append]
    simp only [flat, flatLines_continueLines, List.append_assoc]

theorem flat_nested (lines) : (nested lines).flat = flatLines lines := by
  simp [nested, flat]

@[simp] theorem flat_mk_append (text head : String) (below : List Line) :
    flat ⟨text ++ head, below⟩ = text.toList ++ flat ⟨head, below⟩ := by
  simp [flat]

@[simp] theorem flat_mk_self (fragment : Fragment) :
    flat ⟨fragment.head, fragment.below⟩ = fragment.flat :=
  rfl

end Fragment

section Fragments

variable {next : Fragment}

theorem Balanced.ofString {text : String} (h : Balanced text.toList) :
    Balanced (Fragment.ofString text).flat := by
  rwa [Fragment.flat_ofString]

theorem Balanced.fragment (h : Balanced first.flat) (h' : Balanced next.flat) :
    Balanced (first ++ next).flat := by
  rw [Fragment.flat_append]
  exact h.append h'

end Fragments

namespace Fragment

theorem balanced_concat (h : ∀ fragment ∈ fragments, Balanced fragment.flat) :
    Balanced (concat fragments).flat := by
  induction fragments with
  | nil => exact .nil
  | cons first rest ih =>
    obtain ⟨hfirst, hrest⟩ := List.forall_mem_cons.1 h
    exact .fragment hfirst (ih hrest)

theorem balanced_separated (hseparator : Balanced separator.toList)
    (h : ∀ fragment ∈ fragments, Balanced fragment.flat) :
    Balanced (separated separator fragments).flat := by
  cases fragments with
  | nil => exact .nil
  | cons first rest =>
    obtain ⟨hfirst, hrest⟩ := List.forall_mem_cons.1 h
    refine .fragment hfirst (balanced_concat fun fragment hfragment => ?_)
    obtain ⟨item, hitem, rfl⟩ := List.mem_map.1 hfragment
    exact .fragment hseparator.ofString (hrest item hitem)

theorem balanced_braced {lines : List Line} (h : Balanced (flatLines lines)) :
    Balanced (braced lines).flat := by
  intro stack
  simp [braced, flat, Line.flat, h]

end Fragment

theorem balanced_lines {fragment : Fragment} (h : Balanced fragment.flat) :
    Balanced (flatLines fragment.lines) := by
  have hbreak : Balanced ['\n'] := fun _ => rfl
  exact hbreak.append h

theorem balanced_stacked (h : ∀ item ∈ items, Balanced item.flat) :
    Balanced (flatLines (stacked items)) := by
  rw [stacked, flatLines, List.flatMap_assoc]
  exact .flatMap fun item hitem => balanced_lines (h item hitem)

theorem balanced_spaced (h : ∀ item ∈ items, Balanced item.2.flat) :
    Balanced (flatLines (spaced items)) := by
  fun_induction spaced items with
  | case1 => exact .nil
  | case2 marked item =>
    have hitem : Balanced item.flat := h (marked, item) (by simp)
    exact balanced_lines hitem
  | case3 marked item nextMarked next rest ih =>
    have hitem : Balanced item.flat := h (marked, item) (by simp)
    have hrest := (List.forall_mem_cons.1 h).2
    have hblank : Balanced (flatLines (if marked || nextMarked then [.blank] else [])) := by
      split
      · exact fun _ => rfl
      · exact .nil
    rw [flatLines_append, flatLines_append]
    exact ((balanced_lines hitem).append hblank).append (ih hrest)

/-! ## Rendered lines -/

/-- Indentation makes no difference after a line break. -/
theorem Scanner.scan_indented (scanner : Scanner) (blanks : Nat) (rest) :
    scanner.scan ('\n' :: (List.replicate blanks ' ' ++ rest)) = scanner.scan ('\n' :: rest) := by
  have hbreak : scanner.step '\n' = some ⟨scanner.mode, scanner.stack, none⟩ :=
    step_of_not_mem_marks (by decide) scanner
  rw [scan_cons, scan_cons, hbreak]
  change scan _ (List.replicate blanks ' ' ++ rest) = scan _ rest
  induction blanks with
  | zero => rfl
  | succ blanks ih =>
    rw [List.replicate_succ, List.cons_append, scan_cons, step_of_not_mem_marks (by decide)]
    exact ih

/-- The lines as they are rendered, each with the line break after it. -/
def renderedLines (width : Nat) (lines : List Line) : List Char :=
  lines.flatMap fun line => (line.render width).toList ++ ['\n']

/-- With a line break first, rendered lines scan like lines without indentation. -/
theorem Scanner.scan_renderedLines (width : Nat) (lines) (scanner : Scanner) :
    scanner.scan ('\n' :: renderedLines width lines) =
      scanner.scan (flatLines lines ++ ['\n']) := by
  induction lines generalizing scanner with
  | nil => rfl
  | cons line rest ih =>
    have hline : scanner.scan ('\n' :: renderedLines width (line :: rest)) =
        scanner.scan (line.flat ++ '\n' :: renderedLines width rest) := by
      cases line with
      | blank => rfl
      | code level text =>
        have hrendered : renderedLines width (.code level text :: rest) =
            List.replicate (level * width) ' ' ++
              (text.toList ++ '\n' :: renderedLines width rest) := by
          simp [renderedLines, Line.render]
        rw [hrendered, scan_indented]
        rfl
    rw [hline, flatLines_cons, List.append_assoc, scan_append, scan_append]
    exact congrArg _ (funext ih)

theorem exists_blanks (text) :
    ∃ blanks, (∀ c ∈ blanks, Text.isBlank c = true) ∧ text = Text.trimEnd text ++ blanks := by
  refine ⟨(text.reverse.takeWhile Text.isBlank).reverse, fun c hc => ?_, ?_⟩
  · exact List.all_eq_true.1 List.all_takeWhile c (List.mem_reverse.1 hc)
  · rw [Text.trimEnd, ← List.reverse_append, List.takeWhile_append_dropWhile, List.reverse_reverse]

/-- Balanced lines make up a text at whose end nothing is open. -/
theorem scan_renderLines (width : Nat) (h : Balanced (flatLines lines)) :
    Scanner.scan {} (renderLines width lines).toList = some {} := by
  have hraw : (String.join (lines.map fun line => line.render width ++ "\n")).toList =
      renderedLines width lines := by
    simp [renderedLines, List.flatMap_map]
  have hscan : Scanner.scan {} (renderedLines width lines) = some {} := by
    have hbreak : Leads ['\n'] (code []) (code []) := rfl
    have hfirst : Scanner.scan {} (renderedLines width lines) =
        Scanner.scan {} ('\n' :: renderedLines width lines) := rfl
    rw [hfirst, Scanner.scan_renderedLines]
    exact (h []).append hbreak
  rw [renderLines, String.toList_append, String.toList_ofList, hraw]
  -- what was cut off at the end did not change what is open
  obtain ⟨blanks, hblanks, htext⟩ := exists_blanks (renderedLines width lines)
  rw [htext, Scanner.scan_append] at hscan
  obtain ⟨scanner, hscanner, hrest⟩ := Option.bind_eq_some_iff.1 hscan
  obtain ⟨last, hlast⟩ := Scanner.scan_blanks hblanks scanner
  obtain ⟨hmode, hstack, -⟩ : scanner.mode = .code ∧ scanner.stack = [] ∧ last = none := by
    rw [hlast] at hrest
    simpa using hrest
  rw [Scanner.scan_append, hscanner]
  change (scanner.step '\n').bind _ = _
  rw [Scanner.step_of_not_mem_marks (by decide), hmode, hstack]
  rfl

end SwiftToKotlin.Kotlin
