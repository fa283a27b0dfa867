import SwiftToKotlin.Dump.Parser
import SwiftToKotlin.Proofs.Text.Cutting

/-!
# Ranges of a dump

A range is two places with ` - ` between them, and a place is a line and a column behind an
optional file. What numerals, places and ranges are is said without the functions that read them:
those find exactly the numbers and the file that the texts denote.
-/

namespace SwiftToKotlin.Dump

/-! ## Numerals -/

/-- A sequence of decimal digits that denotes a number of 64 bits. -/
structure Digits (text : List Char) (n : Nat) : Prop where
  ne_nil : text ≠ []
  isDigit : ∀ c ∈ text, c.isDigit = true
  value : Nat.ofDigitChars 10 text 0 = n
  lt : n < Nat.pow 2 64

/-- Digits, possibly behind a plus sign. -/
def Numeral (text : List Char) (n : Nat) : Prop :=
  Digits text n ∨ ∃ digits, text = '+' :: digits ∧ Digits digits n

theorem valueOf_eq_ofDigitChars (hdigits : ∀ c ∈ digits, c.isDigit = true) :
    Text.valueOf 10 digits = Nat.ofDigitChars 10 digits 0 := by
  suffices h : ∀ start, digits.foldl (fun n c => n * 10 + Text.digitValue c) start =
      Nat.ofDigitChars 10 digits start from h 0
  induction digits with
  | nil => simp
  | cons c rest ih =>
    intro start
    have hc : c.isDigit = true := hdigits c (by simp)
    have hrest := ih (fun d hd => hdigits d (by simp [hd])) (start * 10 + Text.digitValue c)
    rw [List.foldl_cons, hrest]
    simp [Nat.ofDigitChars, Text.digitValue, hc, Nat.mul_comm]

theorem digits_iff :
    Digits text n ↔
      (Text.isDecimal text ∧ Text.valueOf 10 text < Nat.pow 2 64) ∧ Text.valueOf 10 text = n := by
  constructor
  · rintro ⟨hne, hdigits, rfl, hlt⟩
    rw [valueOf_eq_ofDigitChars hdigits]
    refine ⟨⟨?_, hlt⟩, rfl⟩
    simpa [Text.isDecimal, hne] using hdigits
  · rintro ⟨⟨hdecimal, hlt⟩, rfl⟩
    obtain ⟨hne, hdigits⟩ : text ≠ [] ∧ ∀ c ∈ text, c.isDigit = true := by
      simpa [Text.isDecimal] using hdecimal
    exact ⟨hne, hdigits, (valueOf_eq_ofDigitChars hdigits).symm, hlt⟩

theorem not_digits_plus : ¬ Digits ('+' :: rest) n := by
  intro h
  exact absurd (h.isDigit '+' (by simp)) (by decide)

theorem readNatural_eq_some_iff : Text.readNatural text = some n ↔ Numeral text n := by
  unfold Text.readNatural
  split
  · next rest =>
    rw [Numeral, or_iff_right not_digits_plus]
    simp [digits_iff]
  · next hplus =>
    have hsigned : ¬ ∃ digits, text = '+' :: digits ∧ Digits digits n := by
      rintro ⟨digits, htext, -⟩
      exact hplus digits htext
    rw [Numeral, or_iff_left hsigned]
    simp [digits_iff]

theorem Numeral.colon_not_mem (h : Numeral text n) : ':' ∉ text := by
  have hdigits {digits : List Char} (h : Digits digits n) : ':' ∉ digits := fun hmem =>
    absurd (h.isDigit ':' hmem) (by decide)
  rcases h with h | ⟨digits, rfl, h⟩
  · exact hdigits h
  · simp [hdigits h]

/-! ## Places -/

/-- A line and a column, behind a file if one is given. The file may hold colons. -/
inductive PlaceText : List Char → Option (List Char) → Nat → Nat → Prop
  | bare (hline : Numeral line l)
      (hcolumn : Numeral column c) : PlaceText (line ++ ':' :: column) none l c
  | inFile (hline : Numeral line l) (hcolumn : Numeral column c) :
      PlaceText (file ++ ':' :: line ++ ':' :: column) (some file) l c

theorem readPlace_eq_some_iff : readPlace text = some (file, l, c) ↔ PlaceText text file l c := by
  constructor
  · intro h
    simp only [readPlace, Option.bind_eq_bind, Option.bind_eq_some_iff] at h
    obtain ⟨⟨rest, column⟩, hcut, c', hcolumn, h⟩ := h
    obtain ⟨rfl, -⟩ := Text.cutLast_singleton_iff.1 hcut
    rw [readNatural_eq_some_iff] at hcolumn
    cases hrest : Text.cutLast [':'] rest
    all_goals
      simp only [hrest, Option.bind_eq_some_iff, readNatural_eq_some_iff, Option.pure_def,
        Option.some.injEq] at h
      obtain ⟨l', hline, rfl, rfl, rfl⟩ := h
    · exact .bare hline hcolumn
    · obtain ⟨rfl, -⟩ := Text.cutLast_singleton_iff.1 hrest
      exact .inFile hline hcolumn
  · intro h
    cases h with
    | bare hline hcolumn =>
      simp [readPlace, Text.cutLast_append_cons _ hcolumn.colon_not_mem,
        Text.cutLast_singleton_eq_none_iff.2 hline.colon_not_mem,
        readNatural_eq_some_iff.2 hline, readNatural_eq_some_iff.2 hcolumn]
    | inFile hline hcolumn =>
      rw [readPlace, Text.cutLast_append_cons _ hcolumn.colon_not_mem]
      simp [Text.cutLast_append_cons _ hline.colon_not_mem,
        readNatural_eq_some_iff.2 hline, readNatural_eq_some_iff.2 hcolumn]

/-! ## Ranges -/

/-- What stands between the two places of a range. -/
def dash : List Char := [' ', '-', ' ']

/-- The file of a range: the one before its first line, if there is one, else `file`. -/
def fileOr (file : String) : Option (List Char) → String
  | some (c :: cs) => String.ofList (c :: cs)
  | _ => file

/-- The text is a range. It is cut at its last dash, blanks around the places do not count, and of
the two files only the first one does. -/
inductive RangeText (file : String) : String → SourceRange → Prop
  | intro (htext : text.toList = start ++ dash ++ stop) (hlast : ¬ Text.Recurs dash stop)
      (hstart : PlaceText (Text.trim start) startFile startLine startColumn)
      (hstop : PlaceText (Text.trim stop) stopFile endLine endColumn) :
      RangeText file text ⟨fileOr file startFile, startLine, startColumn, endLine, endColumn⟩

theorem readRange_eq_some_iff : readRange file text = some range ↔ RangeText file text range := by
  have hdash : dash ≠ [] := by simp [dash]
  constructor
  · intro h
    simp only [readRange, Option.bind_eq_bind, Option.bind_eq_some_iff, Option.pure_def,
      Option.some.injEq] at h
    obtain ⟨⟨start, stop⟩, hcut, ⟨startFile, _, _⟩, hstart, ⟨stopFile, _, _⟩, hstop, rfl⟩ := h
    obtain ⟨htext, hlast⟩ := (Text.cutLast_eq_some_iff hdash).1 hcut
    exact .intro htext hlast (readPlace_eq_some_iff.1 hstart) (readPlace_eq_some_iff.1 hstop)
  · rintro ⟨htext, hlast, hstart, hstop⟩
    have hcut := (Text.cutLast_eq_some_iff hdash).2 ⟨htext, hlast⟩
    rw [dash] at hcut
    simp only [readRange, hcut, readPlace_eq_some_iff.2 hstart, readPlace_eq_some_iff.2 hstop,
      Option.bind_eq_bind, Option.bind_some]
    rfl

end SwiftToKotlin.Dump
