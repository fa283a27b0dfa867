import Mathlib.Data.List.Forall2
import Mathlib.Data.Nat.Digits.Defs
import Mathlib.Tactic.IntervalCases
import SwiftToKotlin.Proofs.Swift.IntegerLiterals

/-!
# Integer literals keep their value

An integer literal is a sign, the mark of a radix and digits of that radix in positional notation,
between which underscores do not count. Reading accepts such texts, but for octal ones that are too
large, and what it writes for them is a literal of the same integer that is not octal.
-/

namespace SwiftToKotlin.Text

/-! ## Digits -/

/-- The character is the digit of this value, in either letter case. -/
def IsDigit (c : Char) (d : Nat) : Prop :=
  "0123456789abcdef".toList[d]? = some c ∨ "0123456789ABCDEF".toList[d]? = some c

instance : Decidable (IsDigit c d) :=
  inferInstanceAs (Decidable (_ ∨ _))

theorem IsDigit.isDigitOf (h : IsDigit c d) : isDigitOf 16 c = true ∧ digitValue c = d := by
  have hd : d < 16 := by
    rcases h with h | h
    · exact (List.getElem?_eq_some_iff.1 h).1
    · exact (List.getElem?_eq_some_iff.1 h).1
  interval_cases d <;> rcases h with h | h <;> cases h <;> decide

theorem isDigit_digitValue (h : isDigitOf base c = true) : IsDigit c (digitValue c) := by
  have hranges : (48 ≤ c.toNat ∧ c.toNat ≤ 57) ∨ (97 ≤ c.toNat ∧ c.toNat ≤ 102) ∨
      (65 ≤ c.toNat ∧ c.toNat ≤ 70) := by
    simp only [isDigitOf, Char.isDigit, Bool.and_eq_true, Bool.or_eq_true, decide_eq_true_eq,
      or_assoc] at h
    exact h.1
  have hc : c = Char.ofNat c.toNat := (Char.ofNat_toNat c).symm
  rcases hranges with ⟨hlow, hhigh⟩ | ⟨hlow, hhigh⟩ | ⟨hlow, hhigh⟩ <;>
    · generalize c.toNat = code at *
      subst hc
      interval_cases code <;> decide

theorem isDigit_and_lt_iff :
    IsDigit c d ∧ d < base ↔ isDigitOf base c = true ∧ digitValue c = d := by
  constructor
  · rintro ⟨hdigit, hlt⟩
    obtain ⟨hhex, rfl⟩ := hdigit.isDigitOf
    simp only [isDigitOf, Bool.and_eq_true, decide_eq_true_eq] at hhex ⊢
    exact ⟨⟨hhex.1, hlt⟩, trivial⟩
  · rintro ⟨hdigit, rfl⟩
    refine ⟨isDigit_digitValue hdigit, ?_⟩
    simp only [isDigitOf, Bool.and_eq_true, decide_eq_true_eq] at hdigit
    exact hdigit.2

/-- Of the digits the last one counts least. -/
theorem valueOf_eq_ofDigits (base : Nat) (digits : List Char) :
    valueOf base digits = Nat.ofDigits base (digits.map digitValue).reverse := by
  suffices hfrom : ∀ start, digits.foldl (fun n c => n * base + digitValue c) start =
      start * base ^ digits.length + Nat.ofDigits base (digits.map digitValue).reverse by
    rw [valueOf, hfrom 0, Nat.zero_mul, Nat.zero_add]
  induction digits with
  | nil => simp
  | cons c rest ih =>
    intro start
    rw [List.foldl_cons, ih, List.map_cons, Nat.ofDigits_reverse_cons, List.length_map,
      List.length_cons]
    ring

/-! ## Literals -/

/-- The bases with their marks. -/
def radixMarks : List (String × Nat) :=
  [("", 10), ("0x", 16), ("0b", 2), ("0o", 8)]

/-- A numeral of the base, behind its mark, stands for the number. -/
def Reads (base : Nat) (cs : List Char) (n : Nat) : Prop :=
  ∃ mark body values, (mark, base) ∈ radixMarks ∧ cs = mark.toList ++ body ∧
    List.Forall₂ (fun c d => IsDigit c d ∧ d < base) (body.filter (· != '_')) values ∧
    values ≠ [] ∧ n = Nat.ofDigits base values.reverse

/-- The text is a literal of the base for the integer. -/
inductive Denotes (base : Nat) (text : String) : Int → Prop
  | plain (h : Reads base text.toList n) : Denotes base text n
  | negative (htext : text.toList = '-' :: rest) (h : Reads base rest n) : Denotes base text (-n)

theorem splitRadix_append (hmark : (mark, base) ∈ radixMarks)
    (hdigits : ∀ c ∈ dropUnderscores body, isDigitOf base c = true) :
    splitRadix (mark.toList ++ body) = (base, body) := by
  simp only [radixMarks, List.mem_cons, Prod.mk.injEq, List.not_mem_nil, or_false] at hmark
  rcases hmark with ⟨rfl, rfl⟩ | ⟨rfl, rfl⟩ | ⟨rfl, rfl⟩ | ⟨rfl, rfl⟩
  · exact splitRadix_of_isDigitOf hdigits
  · rfl
  · rfl
  · rfl

theorem exists_mark (cs) :
    ∃ mark, (mark, (splitRadix cs).1) ∈ radixMarks ∧ cs = mark.toList ++ (splitRadix cs).2 := by
  unfold splitRadix
  split
  · exact ⟨"0x", by simp [radixMarks], rfl⟩
  · exact ⟨"0b", by simp [radixMarks], rfl⟩
  · exact ⟨"0o", by simp [radixMarks], rfl⟩
  · exact ⟨"", by simp [radixMarks], rfl⟩

theorem reads_iff : Reads base cs n ↔ (splitRadix cs).1 = base ∧ magnitude? cs = some n := by
  have hvalues (base digits values) :
      List.Forall₂ (fun c d => IsDigit c d ∧ d < base) digits values ↔
        (∀ c ∈ digits, isDigitOf base c = true) ∧ digits.map digitValue = values := by
    simp only [isDigit_and_lt_iff]
    rw [List.forall₂_and_left, ← List.forall₂_map_left_iff, List.forall₂_eq_eq_eq]
  constructor
  · rintro ⟨mark, body, values, hmark, rfl, hdigits, hne, rfl⟩
    obtain ⟨hall, rfl⟩ := (hvalues _ _ _).1 hdigits
    rw [magnitude?, splitRadix_append hmark hall, ← valueOf_eq_ofDigits]
    exact ⟨rfl, if_pos ⟨fun h => hne (congrArg _ h), List.all_eq_true.2 hall⟩⟩
  · rintro ⟨rfl, hn⟩
    obtain ⟨mark, hmark, hcs⟩ := exists_mark cs
    obtain ⟨⟨hne, hall⟩, hn⟩ := Option.ite_none_right_eq_some.1 hn
    cases hn
    exact ⟨mark, _, _, hmark, hcs, (hvalues _ _ _).2 ⟨List.all_eq_true.1 hall, rfl⟩,
      fun h => hne (List.map_eq_nil_iff.1 h), valueOf_eq_ofDigits _ _⟩

/-- The base that a text announces after its sign. -/
def radixOf (text : String) : Nat :=
  (splitRadix (splitSign text.toList).2).1

/-- A text is a literal in one way at most. -/
theorem denotes_iff :
    Denotes base text n ↔ radixOf text = base ∧ integerValue? text.toList = some n := by
  have hsign {rest k} (h : Reads base ('-' :: rest) k) : False := by
    cases (reads_iff.1 h).2
  rw [radixOf, integerValue?_eq]
  constructor
  · rintro (h | ⟨htext, h⟩)
    · rw [splitSign_of_ne fun rest hrest => hsign (hrest ▸ h)]
      obtain ⟨hbase, hn⟩ := reads_iff.1 h
      exact ⟨hbase, by rw [hn]; rfl⟩
    · rw [htext]
      obtain ⟨hbase, hn⟩ := reads_iff.1 h
      exact ⟨hbase, congrArg (Option.map _) hn⟩
  · rintro ⟨hbase, hn⟩
    obtain ⟨k, hk, rfl⟩ := Option.map_eq_some_iff.1 hn
    have hreads := reads_iff.2 ⟨hbase, hk⟩
    unfold splitSign at hreads ⊢
    split at hreads
    · next htext => exact .negative htext hreads
    · exact .plain hreads

/-! ## What is written for a literal -/

theorem radixOf_ne_of_normalizeInteger (h : normalizeInteger text = some result) :
    radixOf result ≠ 8 := by
  rw [normalizeInteger_eq] at h
  obtain ⟨n, hn, h⟩ := Option.bind_eq_some_iff.1 h
  split at h
  · obtain ⟨-, hresult⟩ := Option.ite_none_right_eq_some.1 h
    cases hresult
    rw [radixOf, splitSign_append_toString, toList_toString,
      (magnitude?_of_isDecimal (isDecimal_toDigits n)).2]
    simp
  · next hoctal =>
    cases h
    exact hoctal

theorem normalizeInteger_eq_none_iff :
    normalizeInteger text = none ↔ (∀ n, integerValue? text.toList ≠ some n) ∨
      ∃ n, (radixOf text = 8 ∧ integerValue? text.toList = some n) ∧ Nat.pow 2 128 ≤ n.natAbs := by
  rw [normalizeInteger_eq, integerValue?_eq, ← radixOf]
  cases magnitude? (splitSign text.toList).2 with
  | none => simp
  | some n =>
    have habs : (if (splitSign text.toList).1 = "-" then -Int.ofNat n else Int.ofNat n).natAbs =
        n := by
      split <;> simp
    rw [Option.bind_some, Option.map_some]
    by_cases hoctal : radixOf text = 8 <;> simp [hoctal, -Int.ofNat_eq_natCast, habs]

/-- A text is refused exactly if it is no literal, or an octal one that is too large. It is one in
one way at most. What is written for it otherwise is a literal of the same integer, is not octal,
and is written for itself. -/
theorem normalizeInteger_keeps_value (text : String) :
    (normalizeInteger text = none ↔
      (∀ base n, ¬ Denotes base text n) ∨ ∃ n, Denotes 8 text n ∧ Nat.pow 2 128 ≤ n.natAbs) ∧
    (∀ base base' n n', Denotes base text n → Denotes base' text n' → base = base' ∧ n = n') ∧
    ∀ result, normalizeInteger text = some result →
      (∃ base base' n, Denotes base text n ∧ Denotes base' result n ∧ base' ≠ 8) ∧
      normalizeInteger result = some result := by
  simp only [denotes_iff]
  refine ⟨?_, ?_, fun result hresult => ?_⟩
  · rw [normalizeInteger_eq_none_iff]
    exact or_congr ⟨fun h _ n hn => h n hn.2, fun h n hn => h _ n ⟨rfl, hn⟩⟩ Iff.rfl
  · rintro _ _ n n' ⟨rfl, hn⟩ ⟨rfl, hn'⟩
    exact ⟨rfl, Option.some_inj.1 (hn.symm.trans hn')⟩
  · obtain ⟨n, hn, hsame⟩ := integerValue?_of_normalizeInteger hresult
    have hoctal := radixOf_ne_of_normalizeInteger hresult
    refine ⟨⟨_, _, n, ⟨rfl, hn⟩, ⟨rfl, hsame⟩, hoctal⟩, ?_⟩
    rw [integerValue?_eq] at hsame
    obtain ⟨k, hk, -⟩ := Option.map_eq_some_iff.1 hsame
    rw [normalizeInteger_eq, hk, Option.bind_some]
    exact if_neg hoctal

end SwiftToKotlin.Text
