import Mathlib.Data.List.Basic
import SwiftToKotlin.Lowering.Expression

/-!
# Keywords among identifiers

Some of the words that Kotlin reserves are put in backticks where they are names. The others, which
Swift reserves as well, are overlooked, though Swift lets them be names in backticks. An identifier
is a bare keyword exactly if the name is one of those. The names that are made up (upper-case names
of cases, numbered locals, anonymous parameters) have shapes that no keyword has.
-/

namespace SwiftToKotlin

namespace Kotlin

/-- The words that are no identifiers unless they stand in backticks, but for `this`, which `self`
becomes. -/
def hardKeywords : List String :=
  ["as", "break", "class", "continue", "do", "else", "false", "for", "fun", "if", "in",
    "interface", "is", "null", "object", "package", "return", "super", "throw", "true", "try",
    "typealias", "typeof", "val", "var", "when", "while"]

/-- Keywords begin with a small letter. -/
theorem exists_toList_of_mem_hardKeywords (h : keyword ∈ hardKeywords) :
    ∃ c cs, keyword.toList = c :: cs ∧ c.isLower = true := by
  have hall : ∀ keyword ∈ hardKeywords, keyword.toList.head?.any Char.isLower = true := by decide
  have hfirst := hall keyword h
  cases htext : keyword.toList with
  | nil => simp [htext] at hfirst
  | cons c cs => exact ⟨c, cs, rfl, by simpa [htext] using hfirst⟩

end Kotlin

namespace Text

/-! ## Upper-case forms -/

theorem isLower_iff (c : Char) : c.isLower = true ↔ 97 ≤ c.toNat ∧ c.toNat ≤ 122 := by
  change (decide ('a'.val ≤ c.val) && decide (c.val ≤ 'z'.val)) = true ↔ _
  rw [Bool.and_eq_true, decide_eq_true_eq, decide_eq_true_eq]
  rfl

theorem isLower_ofNat (h : code < 97 ∨ 122 < code) : (Char.ofNat code).isLower = false := by
  rw [Bool.eq_false_iff, Ne, isLower_iff]
  by_cases hvalid : code.isValidChar
  · rw [show Char.ofNat code = Char.ofNatAux code hvalid from dif_pos hvalid]
    change ¬ (97 ≤ code ∧ code ≤ 122)
    omega
  · rw [show Char.ofNat code = '\x00' from dif_neg hvalid]
    decide

/-- An upper-case form never begins with a small letter of the Latin alphabet. -/
theorem exists_uppercase_eq (c : Char) : ∃ d ds, uppercase c = d :: ds ∧ d.isLower = false := by
  unfold uppercase
  split
  · next hascii =>
    have hall : ∀ code < 128, (Char.ofNat code).toUpper.isLower = false := by decide
    exact ⟨_, _, rfl, Char.ofNat_toNat c ▸ hall c.toNat hascii⟩
  · next hother =>
    split
    · next codes hcodes =>
      have hall : ∀ entry ∈ upperExpansions,
          (entry.2.map Char.ofNat).head?.any (!·.isLower) = true := by decide +kernel
      obtain ⟨before, after, hentries, -⟩ := List.lookup_eq_some_iff.1 hcodes
      have hfirst := hall (c.toNat, codes) (by simp [hentries])
      cases hforms : codes.map Char.ofNat with
      | nil => simp [hforms] at hfirst
      | cons d ds => exact ⟨d, ds, rfl, by simpa [hforms] using hfirst⟩
    · split
      · exact ⟨_, [], rfl, isLower_ofNat (by omega)⟩
      · split
        · next first last shift hrun =>
          have hall : ∀ run ∈ upperShifts, 122 < run.1 + run.2.2 ∨ run.2.1 + run.2.2 < 97 := by
            decide +kernel
          have houtside := hall _ (List.mem_of_find?_eq_some hrun)
          have hinside := List.find?_some hrun
          simp only [Bool.and_eq_true, decide_eq_true_eq] at hinside
          exact ⟨_, [], rfl, isLower_ofNat (by dsimp only at houtside; omega)⟩
        · refine ⟨c, [], rfl, ?_⟩
          rw [Bool.eq_false_iff, Ne, isLower_iff]
          omega

/-! ## Texts with a last character -/

/-- Nothing is stripped from the end of a text if its last character is another one. -/
theorem getLast?_strip (hlast : last ≠ mark) (start) :
    (strip mark (String.ofList (start ++ [last]))).toList.getLast? = some last := by
  have hkept : (start ++ [last]).dropWhile (· == mark) = start.dropWhile (· == mark) ++ [last] := by
    rw [List.dropWhile_append]
    split
    · next hempty =>
      rw [List.isEmpty_iff.1 hempty]
      simp [hlast]
    · rfl
  simp [strip, hkept, hlast]

end Text

namespace Lowering

open Kotlin (hardKeywords)

/-- The keywords that are not put in backticks. Swift reserves them too. -/
def overlookedKeywords : List String :=
  ["break", "class", "continue", "do", "else", "false", "for", "if", "return", "super", "throw",
    "true", "try", "var", "while"]

theorem mem_overlookedKeywords_iff :
    keyword ∈ overlookedKeywords ↔ keyword ∈ hardKeywords ∧ keyword ∉ kotlinKeywords := by
  have hfilter : overlookedKeywords = hardKeywords.filter (· ∉ kotlinKeywords) := by decide
  simp [hfilter]

/-! ## Identifiers -/

def inBackticks (name : String) : String :=
  s!"`{name}`"

theorem identifier_of_mem_kotlinKeywords (h : Text.strip '\x60' source ∈ kotlinKeywords) :
    identifier source = inBackticks (Text.strip '\x60' source) := by
  have hself : Text.strip '\x60' source ≠ "self" := ne_of_mem_of_not_mem h (by decide)
  simp [identifier, inBackticks, hself, h]

theorem identifier_of_mem_overlookedKeywords (h : Text.strip '\x60' source ∈ overlookedKeywords) :
    identifier source = Text.strip '\x60' source := by
  have hself : Text.strip '\x60' source ≠ "self" := ne_of_mem_of_not_mem h (by decide)
  simp [identifier, hself, (mem_overlookedKeywords_iff.1 h).2]

/-- Only an overlooked keyword stays bare, with and without backticks in the source. -/
theorem identifier_mem_hardKeywords_iff (source : String) :
    identifier source ∈ hardKeywords ↔ Text.strip '\x60' source ∈ overlookedKeywords := by
  constructor
  · intro h
    by_cases hescaped : Text.strip '\x60' source ∈ kotlinKeywords
    · have hquoted : ∀ keyword ∈ kotlinKeywords, inBackticks keyword ∉ hardKeywords := by
        decide +kernel
      rw [identifier_of_mem_kotlinKeywords hescaped] at h
      exact absurd h (hquoted _ hescaped)
    · by_cases hself : Text.strip '\x60' source = "self"
      · simp only [identifier, hself] at h
        exact absurd h (by decide)
      · simp only [identifier, hself, hescaped] at h
        exact mem_overlookedKeywords_iff.2 ⟨h, hescaped⟩
  · intro h
    rw [identifier_of_mem_overlookedKeywords h]
    exact (mem_overlookedKeywords_iff.1 h).1

/-! ## Names that are made up -/

theorem exists_toList_apply (style : CaseStyle) (h : name.toList = first :: rest) :
    ∃ tail, (style.apply name).toList = Text.uppercase first ++ tail := by
  cases style with
  | upperSnake => exact ⟨snakeAfter first rest, by simp [CaseStyle.apply, upperSnake, h]⟩
  | upperCamel => exact ⟨rest, by simp [CaseStyle.apply, upperCamel, Text.capitalize, h]⟩

/-- The name of a case begins with an upper-case letter, in either style. -/
theorem apply_not_mem_hardKeywords (style : CaseStyle) (name : String) :
    style.apply name ∉ hardKeywords := by
  intro h
  obtain ⟨c, cs, htext, hlower⟩ := Kotlin.exists_toList_of_mem_hardKeywords h
  cases hname : name.toList with
  | nil =>
    have hempty : (style.apply name).toList = [] := by
      cases style <;> simp [CaseStyle.apply, upperSnake, upperCamel, Text.capitalize, hname]
    rw [hempty] at htext
    cases htext
  | cons first rest =>
    obtain ⟨d, ds, hupper, hd⟩ := Text.exists_uppercase_eq first
    obtain ⟨tail, htail⟩ := exists_toList_apply style hname
    rw [htext, hupper, List.cons_append] at htail
    rw [(List.cons.inj htail).1, hd] at hlower
    cases hlower

theorem anonymousName_not_mem_hardKeywords (index : Nat) : anonymousName index ∉ hardKeywords := by
  have hall : ∀ keyword ∈ hardKeywords, ¬ "it".toList <+: keyword.toList := by decide
  intro h
  refine hall _ h ?_
  unfold anonymousName
  split
  · exact List.prefix_refl _
  · exact ⟨index.repr.toList, String.toList_append.symm⟩

/-- A numbered name ends in a digit. -/
theorem identifier_numbered_not_mem_hardKeywords (name : String) (number : Nat) :
    identifier s!"{name}{number}" ∉ hardKeywords := by
  have hall : ∀ keyword ∈ overlookedKeywords, keyword.toList.getLast?.any Char.isDigit = false := by
    decide
  have hne : Nat.toDigits 10 number ≠ [] := Nat.toDigits_ne_nil
  have hdigit : ((Nat.toDigits 10 number).getLast hne).isDigit = true :=
    Nat.isDigit_of_mem_toDigits (by decide) (by decide) (List.getLast_mem hne)
  have hname : s!"{name}{number}" = String.ofList
      (name.toList ++ (Nat.toDigits 10 number).dropLast ++
        [(Nat.toDigits 10 number).getLast hne]) := by
    rw [List.append_assoc, List.dropLast_append_getLast, ← Nat.toList_repr, String.ofList_append,
      String.ofList_toList, String.ofList_toList]
    rfl
  rw [identifier_mem_hardKeywords_iff, hname]
  intro h
  have hlast := hall _ h
  rw [Text.getLast?_strip] at hlast
  · simp [hdigit] at hlast
  · rintro heq
    rw [heq] at hdigit
    cases hdigit

end Lowering

end SwiftToKotlin
