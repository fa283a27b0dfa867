import Mathlib.Data.List.Forall2
import SwiftToKotlin.Proofs.Kotlin.Balance
import SwiftToKotlin.Proofs.Kotlin.Layout

/-!
# Reading string templates

A string is read by lexical rules: escapes stand for characters, a dollar sign and the longest run
of characters of a name behind it are a name, and what stands in the braces behind a dollar sign is
code. Texts that meet are one text, and an empty one is none. A template is written so that its
texts and expressions are read from it again, but for one case: a name that is written without
braces runs on into a text that begins like more of a name if only empty texts stand between them.
-/

namespace SwiftToKotlin.Kotlin

open Scanner (code inText)
open Text (isNameChar)
open Grammar (EndsIdentifier)

/-! ## Lexical rules -/

/-- The code up to the brace that closes the template, and what stands behind the brace. -/
def takeCode : Scanner → List Char → Option (List Char × List Char)
  | _, [] => none
  | scanner, c :: rest =>
    match scanner.step c with
    | none => none
    | some next =>
      if next = inText [] then some ([], rest)
      else (takeCode next rest).map fun (source, behind) => (c :: source, behind)

/-- What a string is read as. -/
inductive Segment
  | text (chars : List Char)
  | code (source : List Char)
  deriving DecidableEq

namespace Segment

/-- A character joins the text behind it. -/
def addChar (c : Char) : List Segment → List Segment
  | text chars :: rest => text (c :: chars) :: rest
  | rest => text [c] :: rest

def addText (chars : List Char) (segments : List Segment) : List Segment :=
  chars.foldr addChar segments

end Segment

open Segment (addChar addText)

variable {text rest : List Char}

/-- What stands behind the opening quote is read as the segments. -/
inductive Decodes : List Char → List Segment → Prop
  | close : Decodes ['"'] []
  | plain {rest : List Char} (hc : c ∉ ['"', '\\', '$'])
      (hrest : Decodes rest segments) : Decodes (c :: rest) (addChar c segments)
  | escape {rest : List Char} {segments : List Segment}
      (hc : Grammar.unescapeChar e = some c) (hrest : Decodes rest segments) :
      Decodes ('\\' :: e :: rest) (addChar c segments)
  | name {name rest : List Char} {segments : List Segment} (hname : name ≠ [])
      (hchars : ∀ c ∈ name, isNameChar c = true) (hends : EndsIdentifier rest)
      (hrest : Decodes rest segments) : Decodes ('$' :: (name ++ rest)) (.code name :: segments)
  | code {inside source behind : List Char} {segments : List Segment}
      (hcode : takeCode (Scanner.code [.template]) inside = some (source, behind))
      (hrest : Decodes behind segments) :
      Decodes ('$' :: '\x7b' :: inside) (.code source :: segments)
  | dollar {rest : List Char} {segments : List Segment}
      (hbehind : ∀ c ∈ rest.head?, isNameChar c = false ∧ c ≠ '\x7b')
      (hrest : Decodes rest segments) : Decodes ('$' :: rest) (addChar '$' segments)

/-- The string with its quotes is read as the segments. -/
def ReadsAs (text : List Char) (segments : List Segment) : Prop :=
  ∃ rest, text = '"' :: rest ∧ Decodes rest segments

theorem takeWhile_of_ends (hchars : ∀ c ∈ name, isNameChar c = true) (hends : EndsIdentifier rest) :
    (name ++ rest).takeWhile isNameChar = name := by
  have hspan := Grammar.span_of_ends hchars hends
  rw [List.span_eq_takeWhile_dropWhile] at hspan
  exact (Prod.ext_iff.1 hspan).1

/-- What is read behind a dollar sign depends on the longest run of characters of a name there. -/
theorem Decodes.of_dollar (h : Decodes ('$' :: rest) segments) :
    (∃ behind more, rest.takeWhile isNameChar ≠ [] ∧
      rest = rest.takeWhile isNameChar ++ behind ∧ Decodes behind more ∧
      segments = .code (rest.takeWhile isNameChar) :: more) ∨
    (∃ inside source behind more, rest = '\x7b' :: inside ∧
      takeCode (Scanner.code [.template]) inside = some (source, behind) ∧ Decodes behind more ∧
      segments = .code source :: more) ∨
    ∃ more, (∀ c ∈ rest.head?, isNameChar c = false ∧ c ≠ '\x7b') ∧ Decodes rest more ∧
      segments = addChar '$' more := by
  generalize htext : '$' :: rest = text at h
  cases h with
  | close => cases htext
  | plain hc _ =>
    cases htext
    simp at hc
  | escape _ _ => cases htext
  | name hname hchars hends hrest =>
    cases htext
    rw [takeWhile_of_ends hchars hends]
    exact .inl ⟨_, _, hname, rfl, hrest, rfl⟩
  | code hcode hrest =>
    cases htext
    exact .inr (.inl ⟨_, _, _, _, rfl, hcode, hrest, rfl⟩)
  | dollar hbehind hrest =>
    cases htext
    exact .inr (.inr ⟨_, hbehind, hrest, rfl⟩)

theorem takeWhile_eq_nil (h : ∀ c ∈ rest.head?, isNameChar c = false ∧ c ≠ '\x7b') :
    rest.takeWhile isNameChar = [] := by
  cases rest with
  | nil => rfl
  | cons c rest => simp [(h c rfl).1]

theorem isNameChar_brace : isNameChar '\x7b' = false := by
  decide

/-- There is no choice in the rules. -/
theorem Decodes.unique (h : Decodes text first) (h' : Decodes text second) : first = second := by
  induction h generalizing second with
  | close => cases h' <;> simp_all
  | plain hc hrest ih => cases h' <;> grind
  | escape hc hrest ih => cases h' <;> grind
  | @name name rest segments hname hchars hends hrest ih =>
    have hrun := takeWhile_of_ends hchars hends
    rcases h'.of_dollar with ⟨behind, more, -, htext, hbehind, rfl⟩ |
      ⟨inside, source, behind, more, htext, -⟩ | ⟨more, hnone, -⟩
    · rw [hrun] at htext ⊢
      rw [ih (List.append_cancel_left htext ▸ hbehind)]
    · simp [htext, isNameChar_brace, hname.symm] at hrun
    · simp [takeWhile_eq_nil hnone, hname.symm] at hrun
  | @code inside source behind segments hcode hrest ih =>
    rcases h'.of_dollar with ⟨behind', more, hrun, -⟩ |
      ⟨inside', source', behind', more, htext, hcode', hrest', rfl⟩ | ⟨more, hnone, -⟩
    · simp [isNameChar_brace] at hrun
    · cases htext
      cases hcode.symm.trans hcode'
      rw [ih hrest']
    · exact absurd rfl (hnone _ rfl).2
  | @dollar rest segments hbehind hrest ih =>
    rcases h'.of_dollar with ⟨behind', more, hrun, -⟩ |
      ⟨inside', source', behind', more, htext, -⟩ | ⟨more, -, hrest', rfl⟩
    · exact absurd (takeWhile_eq_nil hbehind) hrun
    · exact absurd rfl (hbehind _ (by rw [htext]; rfl)).2
    · rw [ih hrest']

/-! ## Code in a template -/

namespace Scanner

/-- The scanner with more open further out. -/
def within (outer : List Bracket) (scanner : Scanner) : Scanner :=
  ⟨scanner.mode, scanner.stack ++ outer, scanner.last⟩

/-- What is open further out makes no difference to a step: a closing bracket finds its counterpart
further in. -/
theorem step_within {scanner : Scanner} (h : scanner.step c = some next) (outer) :
    (scanner.within outer).step c = some (next.within outer) := by
  obtain ⟨mode, stack, last⟩ := scanner
  cases mode <;> simp only [step, stepCode, stepText, stepComment, within] at h ⊢ <;>
    (repeat' split at h) <;> cases h <;> grind

/-- Code that leaves all as it is does not close the template around it. -/
theorem takeCode_of_scan {before : Scanner} (h : before.scan source = some after) (rest) :
    takeCode (before.within [.template]) (source ++ rest) =
      (takeCode (after.within [.template]) rest).map fun read => (source ++ read.1, read.2) := by
  induction source generalizing before with
  | nil =>
    cases h
    simp
  | cons c source ih =>
    obtain ⟨next, hnext, hrest⟩ := Option.bind_eq_some_iff.1 h
    have hinside : next.within [.template] ≠ inText [] := by
      simp [within]
    rw [List.cons_append, takeCode, step_within hnext]
    dsimp only
    rw [if_neg hinside, ih hrest, Option.map_map]
    rfl

end Scanner

theorem takeCode_of_balanced {source : List Char} (h : Balanced source) (behind) :
    takeCode (code [.template]) (source ++ '\x7d' :: behind) = some (source, behind) := by
  have hscan := Scanner.takeCode_of_scan (h []) ('\x7d' :: behind)
  have hclose : takeCode (code [.template]) ('\x7d' :: behind) = some ([], behind) := rfl
  exact hscan.trans (by rw [Scanner.within, List.nil_append, hclose]; simp)

/-! ## Layout -/

theorem Scanner.scan_laid (h : Laid lines text) (scanner : Scanner) :
    scanner.scan text = scanner.scan (flatLines lines) := by
  induction h generalizing scanner with
  | nil => rfl
  | @cons line lines text blanks _ ih =>
    have hline : line.flat = '\n' :: line.text := by cases line <;> rfl
    rw [List.append_assoc, scan_indented, flatLines_cons, hline]
    change scan _ (('\n' :: line.text) ++ text) = scan _ (('\n' :: line.text) ++ flatLines lines)
    rw [scan_append, scan_append]
    exact congrArg _ (funext ih)

/-- However the lines are indented, a balanced fragment makes a balanced text. -/
theorem Balanced.of_laidOut {fragment : Fragment} (h : fragment.LaidOut text)
    (hflat : Balanced fragment.flat) : Balanced text := by
  obtain ⟨below, hbelow, rfl⟩ := h
  intro stack
  have hscan := hflat stack
  rw [Leads, Fragment.flat, Scanner.scan_append] at hscan
  rw [Leads, Scanner.scan_append, ← hscan]
  exact congrArg _ (funext fun scanner => scanner.scan_laid hbelow)

/-! ## Texts -/

/-- No empty text stands first. -/
def Segment.IsProper (segments : List Segment) : Prop :=
  segments.head? ≠ some (.text [])

theorem Segment.isProper_addChar (c : Char) (segments) : IsProper (addChar c segments) := by
  unfold addChar
  split <;> simp [IsProper]

theorem Segment.addChar_inj (hfirst : IsProper first) (hsecond : IsProper second) :
    addChar c first = addChar c second ↔ first = second := by
  constructor
  · intro h
    unfold addChar at h
    split at h <;> split at h <;> simp_all [IsProper]
  · intro h
    rw [h]

theorem Segment.isProper_addText (h : IsProper segments) (chars) :
    IsProper (addText chars segments) := by
  cases chars with
  | nil => exact h
  | cons c chars => exact isProper_addChar c _

theorem Segment.addText_inj (hfirst : IsProper first) (hsecond : IsProper second) :
    addText chars first = addText chars second ↔ first = second := by
  induction chars with
  | nil => exact Iff.rfl
  | cons c chars ih =>
    exact (addChar_inj (isProper_addText hfirst chars) (isProper_addText hsecond chars)).trans ih

theorem Decodes.isProper (h : Decodes text segments) : Segment.IsProper segments := by
  cases h with
  | close | name | code => simp [Segment.IsProper]
  | plain | escape | dollar => exact Segment.isProper_addChar _ _

theorem decodes_escapeChar (c : Char) (h : Decodes rest segments) :
    Decodes (escapeChar c ++ rest) (addChar c segments) := by
  unfold escapeChar
  split
  iterate 6 exact .escape rfl h
  next hquote hbackslash _ _ _ hdollar =>
    exact .plain (by simpa using ⟨hquote, hbackslash, hdollar⟩) h

/-- An escaped text is read as the text. -/
theorem decodes_escaped (text : String) (h : Decodes rest segments) :
    Decodes ((escaped text).toList ++ rest) (addText text.toList segments) := by
  rw [escaped, String.toList_ofList]
  induction text.toList with
  | nil => exact h
  | cons c chars ih =>
    rw [List.flatMap_cons, List.append_assoc]
    exact decodes_escapeChar c ih

/-- Characters of a name are text unless a dollar sign stands before them. -/
theorem Decodes.of_run (hrun : ∀ c ∈ run, isNameChar c = true)
    (h : Decodes (run ++ rest) segments) :
    ∃ more, Decodes rest more ∧ segments = addText run more := by
  induction run generalizing segments with
  | nil => exact ⟨segments, h, rfl⟩
  | cons c run ih =>
    obtain ⟨hc, hothers⟩ := List.forall_mem_cons.1 hrun
    have hquote : isNameChar '"' = false := by decide
    have hbackslash : isNameChar '\\' = false := by decide
    have hdollar : isNameChar '$' = false := by decide
    generalize htext : c :: run ++ rest = text at h
    cases h with
    | close => simp [(List.cons_eq_cons.1 htext).1, hquote] at hc
    | plain _ hrest =>
      cases htext
      obtain ⟨more, hmore, rfl⟩ := ih hothers hrest
      exact ⟨more, hmore, rfl⟩
    | escape => simp [(List.cons_eq_cons.1 htext).1, hbackslash] at hc
    | name | code | dollar => simp [(List.cons_eq_cons.1 htext).1, hdollar] at hc

/-! ## Templates -/

/-- A part of a template and its text, for an expression that of its value. -/
inductive Shows : TemplatePart Node → TemplatePart (List Char) → Prop
  | text (text : String) : Shows (.text text) (.text text)
  | expr {node : Node} {source : List Char} (h : node.written.value.LaidOut source) :
      Shows (.expr node) (.expr source)

/-- The texts and expressions of a template, with texts that meet joined and none of them empty. -/
def segmentsOf : List (TemplatePart (List Char)) → List Segment
  | [] => []
  | .text text :: rest => addText text.toList (segmentsOf rest)
  | .expr source :: rest => .code source :: segmentsOf rest

theorem isProper_segmentsOf (shown) : Segment.IsProper (segmentsOf shown) := by
  induction shown with
  | nil => simp [segmentsOf, Segment.IsProper]
  | cons part rest ih =>
    cases part with
    | expr source => simp [segmentsOf, Segment.IsProper]
    | text text => exact Segment.isProper_addText ih _

/-- The text begins with a character of a name. -/
def beginsName (text : String) : Bool :=
  text.toList.head?.any isNameChar

/-- A plain name has only empty texts between it and a text that begins like more of a name. -/
def RunsOn (parts : List (TemplatePart Node)) : Prop :=
  ∃ before name range gap text rest,
    parts = before ++ .expr ⟨.reference name, range⟩ ::
      (List.replicate (gap + 1) (.text "") ++ .text text :: rest) ∧
    isPlainIdentifier name = true ∧ beginsName text = true

/-- The first character of the texts at the beginning. -/
def firstChar? : List (TemplatePart Node) → Option Char
  | .text text :: rest => text.toList.head?.or (firstChar? rest)
  | _ => none

theorem firstChar?_gap (gap : Nat) (parts) :
    firstChar? (List.replicate gap (.text "") ++ parts) = firstChar? parts := by
  induction gap with
  | zero => rfl
  | succ gap ih => exact ih

/-- There is a gap if the part that is next does not begin with a character of a name, but the texts
at the beginning do. -/
theorem exists_gap (hnext : ∀ text rest, parts = .text text :: rest → beginsName text = false)
    (hfirst : (firstChar? parts).any isNameChar = true) :
    ∃ gap text rest, parts = List.replicate (gap + 1) (.text "") ++ .text text :: rest ∧
      beginsName text = true := by
  induction parts with
  | nil => cases hfirst
  | cons part rest ih =>
    cases part with
    | expr node => cases hfirst
    | text text =>
      have hbegins := hnext text rest rfl
      rw [firstChar?] at hfirst
      have hempty : text = "" := by
        cases hhead : text.toList.head? with
        | none => exact String.toList_inj.1 (List.head?_eq_none_iff.1 hhead)
        | some c =>
          rw [hhead, Option.some_or] at hfirst
          rw [beginsName, hhead, hfirst] at hbegins
          cases hbegins
      subst hempty
      by_cases hmore : ∃ text others, rest = .text text :: others ∧ beginsName text = true
      · obtain ⟨text, others, rfl, htext⟩ := hmore
        exact ⟨0, text, others, rfl, htext⟩
      · have hrest : ∀ text others, rest = .text text :: others → beginsName text = false := by
          intro text others hothers
          rw [Bool.eq_false_iff]
          exact fun htext => hmore ⟨text, others, hothers, htext⟩
        obtain ⟨gap, text, others, rfl, htext⟩ := ih hrest hfirst
        exact ⟨gap + 1, text, others, rfl, htext⟩

theorem not_runsOn_nil : ¬ RunsOn [] := by
  rintro ⟨before, _, _, _, _, _, hparts, -⟩
  cases before <;> cases hparts

theorem runsOn_text {text : String} {rest : List (TemplatePart Node)} :
    RunsOn (.text text :: rest) ↔ RunsOn rest := by
  constructor
  · rintro ⟨_ | ⟨first, before⟩, name, range, gap, more, others, hparts, h⟩ <;> cases hparts
    exact ⟨before, name, range, gap, more, others, rfl, h⟩
  · rintro ⟨before, name, range, gap, more, others, rfl, h⟩
    exact ⟨.text text :: before, name, range, gap, more, others, rfl, h⟩

/-- The expression needs no braces before the parts that follow: it is a plain name. -/
def IsBare (node : Node) (rest : List (TemplatePart Node)) (name : String) : Prop :=
  node.construct = .reference name ∧ isPlainIdentifier name = true ∧
    ∀ text others, rest = .text text :: others → beginsName text = false

theorem runsOn_expr {rest : List (TemplatePart Node)} :
    RunsOn (.expr node :: rest) ↔
      (∃ name, IsBare node rest name ∧ (firstChar? rest).any isNameChar = true) ∨ RunsOn rest := by
  constructor
  · rintro ⟨before, name, range, gap, more, others, hparts, hname, hmore⟩
    cases before with
    | nil =>
      cases hparts
      refine .inl ⟨name, ⟨rfl, hname, ?_⟩, ?_⟩
      · intro text rest hrest
        cases hrest
        rfl
      · rw [firstChar?_gap, firstChar?]
        unfold beginsName at hmore
        cases hhead : more.toList.head? with
        | none => simp [hhead] at hmore
        | some c => simpa [hhead] using hmore
    | cons first before =>
      cases hparts
      exact .inr ⟨before, name, range, gap, more, others, rfl, hname, hmore⟩
  · rintro (⟨name, ⟨hc, hname, hnext⟩, hfirst⟩ | ⟨before, name, range, gap, more, others, rfl, h⟩)
    · obtain ⟨gap, text, others, rfl, htext⟩ := exists_gap hnext hfirst
      obtain ⟨construct, range⟩ := node
      cases hc
      exact ⟨[], name, range, gap, text, others, rfl, hname, htext⟩
    · exact ⟨.expr node :: before, name, range, gap, more, others, rfl, h⟩

/-! ## Written templates -/

namespace Written

/-- The parts of a template as they are handed to the writer. -/
abbrev handed (parts : List (TemplatePart Node)) : List (TemplatePart Part) :=
  parts.map (TemplatePart.map fun node => (node, node.written))

theorem goesOn_handed :
    goesOn (handed parts) = false ↔
      ∀ text rest, parts = .text text :: rest → beginsName text = false := by
  cases parts with
  | nil => simp [goesOn]
  | cons part rest =>
    cases part with
    | text text => simp [goesOn, TemplatePart.map, beginsName]
    | expr node => simp [goesOn, TemplatePart.map]

/-- An expression is written as a plain name behind a dollar sign, or in braces. -/
theorem laidOut_templateExpr {rest : List (TemplatePart Node)}
    (h : (templateExpr (node, node.written) (handed rest)).LaidOut text) :
    (∃ name, IsBare node rest name ∧ text = '$' :: name.toList) ∨
    ((∀ name, ¬ IsBare node rest name) ∧
      ∃ source, node.written.value.LaidOut source ∧
        text = '$' :: '\x7b' :: (source ++ ['\x7d'])) := by
  have hbraces (h : ("$\x7b" ++ asValue (node, node.written) ++ "\x7d" : Fragment).LaidOut text) :
      ∃ source, node.written.value.LaidOut source ∧
        text = '$' :: '\x7b' :: (source ++ ['\x7d']) := by
    obtain ⟨front, rfl, hfront⟩ := h.of_append_ofString
    obtain ⟨source, rfl, hsource⟩ := hfront.of_ofString_append
    exact ⟨source, hsource, by simp⟩
  unfold templateExpr at h
  split at h
  · next name hc =>
    split at h
    · next hplain =>
      simp only [Bool.and_eq_true, Bool.not_eq_true', goesOn_handed] at hplain
      obtain ⟨front, rfl, hfront⟩ := h.of_ofString_append
      rw [hfront.eq_of_ofString]
      exact .inl ⟨name, ⟨hc, hplain⟩, rfl⟩
    · next hplain =>
      refine .inr ⟨?_, hbraces h⟩
      rintro other ⟨hother, hname, hnext⟩
      cases hc.symm.trans hother
      simp [hname, goesOn_handed.2 hnext] at hplain
  · next hc =>
    refine .inr ⟨?_, hbraces h⟩
    exact fun name hbare => hc name hbare.1

theorem head?_escapeChar (c : Char) :
    ∃ d rest, escapeChar c = d :: rest ∧ isNameChar d = isNameChar c := by
  unfold escapeChar
  split
  iterate 6 exact ⟨_, _, rfl, by decide⟩
  exact ⟨c, [], rfl, rfl⟩

/-- A name before the template would run on exactly if the texts at the beginning continue it. -/
theorem endsIdentifier_templateParts (h : (templateParts (handed parts)).LaidOut text) :
    EndsIdentifier (text ++ ['"']) ↔ (firstChar? parts).any isNameChar = false := by
  have hdollar (rest : List Char) : EndsIdentifier ('$' :: rest) := by
    simp [EndsIdentifier]
    decide
  induction parts generalizing text with
  | nil =>
    rw [h.eq_of_ofString]
    simp [EndsIdentifier]
    decide
  | cons part rest ih =>
    cases part with
    | text string =>
      obtain ⟨tail, rfl, htail⟩ := h.of_ofString_append
      rw [firstChar?, escaped, String.toList_ofList]
      cases string.toList with
      | nil => exact ih htail
      | cons c chars =>
        obtain ⟨d, others, hchar, hd⟩ := head?_escapeChar c
        simp [hchar, EndsIdentifier, hd]
    | expr node =>
      obtain ⟨front, tail, rfl, hfront, -⟩ := h.split
      have hends : EndsIdentifier (front ++ tail ++ ['"']) := by
        rcases laidOut_templateExpr hfront with ⟨name, -, -, -, rfl⟩ | ⟨-, source, -, rfl⟩
        · exact hdollar _
        · exact hdollar _
      exact iff_of_true hends rfl

theorem laidOut_reference {node : Node} (hc : node.construct = .reference name) :
    node.written.value.LaidOut name.toList := by
  obtain ⟨construct, range⟩ := node
  cases hc
  exact ⟨[], .nil, (List.append_nil _).symm⟩

theorem endsIdentifier_of_takeWhile (h : text.takeWhile isNameChar = []) : EndsIdentifier text := by
  cases text with
  | nil => simp [EndsIdentifier]
  | cons c rest =>
    rw [List.takeWhile_cons] at h
    simpa [EndsIdentifier] using h

/-- A name without braces takes in the characters of a name behind it. -/
theorem decodes_name (hname : isPlainIdentifier name = true) (h : Decodes tail segments) :
    ∃ more, Decodes ('$' :: (name.toList ++ tail))
        (.code (name.toList ++ tail.takeWhile isNameChar) :: more) ∧
      segments = addText (tail.takeWhile isNameChar) more := by
  obtain ⟨c, cs, hchars, -, hname⟩ := Grammar.exists_cons_of_isPlainIdentifier hname
  rw [← hchars] at hname
  have hrun : ∀ c ∈ tail.takeWhile isNameChar, isNameChar c = true :=
    List.all_eq_true.1 List.all_takeWhile
  have hends : EndsIdentifier (tail.dropWhile isNameChar) := by
    intro c hc
    have hstop := List.head?_dropWhile_not isNameChar tail
    rw [show (tail.dropWhile isNameChar).head? = some c from hc] at hstop
    simpa using hstop
  have htail := List.takeWhile_append_dropWhile (p := isNameChar) (l := tail)
  rw [← htail] at h
  obtain ⟨more, hmore, hsegments⟩ := h.of_run hrun
  refine ⟨more, ?_, hsegments⟩
  have hwhole : Decodes
      ('$' :: (name.toList ++ tail.takeWhile isNameChar ++ tail.dropWhile isNameChar))
      (.code (name.toList ++ tail.takeWhile isNameChar) :: more) :=
    .name (by simp [hchars]) (List.forall_mem_append.2 ⟨hname, hrun⟩) hends hmore
  rwa [List.append_assoc, htail] at hwhole

/-- What is written for the parts is read as the parts exactly if no name runs on. -/
theorem decodes_templateParts
    (hparts : ∀ node ∈ parts.flatMap TemplatePart.parts, Balanced node.written.value.flat)
    (h : (templateParts (handed parts)).LaidOut text) :
    ∃ shown segments, List.Forall₂ Shows parts shown ∧ Decodes (text ++ ['"']) segments ∧
      (segments = segmentsOf shown ↔ ¬ RunsOn parts) := by
  induction parts generalizing text with
  | nil =>
    rw [h.eq_of_ofString]
    exact ⟨[], [], .nil, .close, iff_of_true rfl not_runsOn_nil⟩
  | cons part rest ih =>
    rw [List.flatMap_cons, List.forall_mem_append] at hparts
    cases part with
    | text string =>
      obtain ⟨tail, rfl, htail⟩ := h.of_ofString_append
      obtain ⟨shown, segments, hshown, hsegments, hiff⟩ := ih hparts.2 htail
      refine ⟨.text string :: shown, addText string.toList segments, .cons (.text string) hshown,
        ?_, ?_⟩
      · rw [List.append_assoc]
        exact decodes_escaped string hsegments
      · rw [segmentsOf, Segment.addText_inj hsegments.isProper (isProper_segmentsOf shown), hiff,
          runsOn_text]
    | expr node =>
      obtain ⟨front, tail, rfl, hfront, htail⟩ := h.split
      obtain ⟨shown, segments, hshown, hsegments, hiff⟩ := ih hparts.2 htail
      rw [runsOn_expr]
      rcases laidOut_templateExpr hfront with ⟨name, hbare, rfl⟩ | ⟨hbraces, source, hsource, rfl⟩
      · obtain ⟨more, hmore, hrun⟩ := decodes_name hbare.2.1 hsegments
        refine ⟨.expr name.toList :: shown, _, .cons (.expr (laidOut_reference hbare.1)) hshown,
          by simpa using hmore, ?_⟩
        rw [segmentsOf, List.cons_eq_cons]
        have hends := endsIdentifier_templateParts htail
        cases hfirst : (firstChar? rest).any isNameChar with
        | true =>
          -- the name that is read is longer than the one that is written
          have hmany : (tail ++ ['"']).takeWhile isNameChar ≠ [] := by
            intro hnil
            rw [hfirst] at hends
            exact absurd (hends.1 (endsIdentifier_of_takeWhile hnil)) (by decide)
          refine iff_of_false ?_ ?_
          · rintro ⟨hcode, -⟩
            exact hmany (by simpa using hcode)
          · exact fun hnone => hnone (.inl ⟨name, hbare, rfl⟩)
        | false =>
          have hnil : (tail ++ ['"']).takeWhile isNameChar = [] :=
            takeWhile_of_ends (List.forall_mem_nil _) (hends.2 hfirst)
          have hmore : segments = more := by simpa [hnil, addText] using hrun
          simp [hnil, ← hmore, hiff]
      · refine ⟨.expr source :: shown, .code source :: segments, .cons (.expr hsource) hshown,
          ?_, ?_⟩
        · have hbalanced : Balanced source :=
            .of_laidOut hsource (hparts.1 node (by simp [TemplatePart.parts]))
          have hcode := takeCode_of_balanced hbalanced (tail ++ ['"'])
          simpa using Decodes.code hcode hsegments
        · rw [segmentsOf, List.cons_eq_cons, hiff]
          simp [hbraces]

end Written

namespace Node

/-- However it is laid out, the text of a template is read in exactly one way. If no name or number
in its expressions has a delimiter in it, its texts and expressions are read exactly if no plain
name runs on over empty texts into a text that continues it. -/
theorem template_read_back_iff (parts : List (TemplatePart Node)) (range : Option SourceRange)
    (hwords : ∀ node ∈ parts.flatMap TemplatePart.parts, Written.AllFree node.words)
    {text : List Char} (htext : (⟨.template parts, range⟩ : Node).written.value.LaidOut text) :
    ∃ shown segments, List.Forall₂ Shows parts shown ∧
      (∀ other, ReadsAs text other ↔ other = segments) ∧
      (segments = segmentsOf shown ↔ ¬ RunsOn parts) := by
  rw [written_mk] at htext
  obtain ⟨front, rfl, hfront⟩ := htext.of_append_ofString
  obtain ⟨inside, rfl, hinside⟩ := hfront.of_ofString_append
  obtain ⟨shown, segments, hshown, hsegments, hiff⟩ := Written.decodes_templateParts
    (fun node hnode => (isBalanced_written (hwords node hnode)).value) hinside
  refine ⟨shown, segments, hshown, fun other => ⟨?_, ?_⟩, hiff⟩
  · rintro ⟨rest, hrest, hother⟩
    cases hrest
    exact hother.unique hsegments
  · rintro rfl
    exact ⟨inside ++ ['"'], rfl, hsegments⟩

/-- A sum and two names, one of them before a text that would continue it. -/
def bill : List (TemplatePart Node) :=
  [.text "1\"$ ", .expr (.reference "n" none), .text "x",
    .expr ⟨.binary .add (.reference "n" none) (.literal (.int "1") none), none⟩, .text "",
    .expr (.reference "m" none)]

theorem bill_read_back :
    (∀ node ∈ bill.flatMap TemplatePart.parts, Written.AllFree node.words) ∧
      ∃ shown, List.Forall₂ Shows bill shown ∧
        ∀ other, ReadsAs "\"1\\\"\\$ $\x7bn\x7dx$\x7bn + 1\x7d$m\"".toList other ↔
          other = segmentsOf shown := by
  have hwords : ∀ node ∈ bill.flatMap TemplatePart.parts, Written.AllFree node.words := by decide
  have htext : (⟨.template bill, none⟩ : Node).written.value.LaidOut
      "\"1\\\"\\$ $\x7bn\x7dx$\x7bn + 1\x7d$m\"".toList := ⟨[], .nil, by decide⟩
  obtain ⟨shown, segments, hshown, hreads, hiff⟩ := template_read_back_iff bill none hwords htext
  have hnone : ¬ RunsOn bill := by
    have hbegins : beginsName "x" = true := by decide
    simp [bill, runsOn_text, runsOn_expr, not_runsOn_nil, IsBare, firstChar?, hbegins]
  exact ⟨hwords, shown, hshown, hiff.2 hnone ▸ hreads⟩

/-- The empty text hides the letter behind it, and another name is read. -/
theorem name_runs_on :
    (⟨.template [.expr (.reference "a" none), .text "", .text "b"], none⟩ :
      Node).written.value.LaidOut "\"$ab\"".toList ∧
      ReadsAs "\"$ab\"".toList [.code "ab".toList] := by
  have hchars : "ab".toList.all isNameChar = true := by decide
  have hread : Decodes ('$' :: ("ab".toList ++ ['"'])) [.code "ab".toList] :=
    .name (by decide) (List.all_eq_true.1 hchars) (by simp [EndsIdentifier]; decide) .close
  exact ⟨⟨[], .nil, by decide⟩, _, rfl, hread⟩

end Node

end SwiftToKotlin.Kotlin
