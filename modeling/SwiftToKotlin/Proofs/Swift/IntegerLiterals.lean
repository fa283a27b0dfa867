import SwiftToKotlin.Proofs.Swift.Origins

/-!
# What integer literals denote

An integer literal denotes an integer through its sign, the radix that its prefix announces and its
digits, whatever underscores stand between those. Reading keeps that integer, so that every integer
literal in a tree that was read from a dump denotes one.
-/

namespace SwiftToKotlin

namespace Text

/-! ## Numerals -/

/-- The number that a literal without a sign denotes. -/
def magnitude? (cs : List Char) : Option Nat :=
  let (radix, body) := splitRadix cs
  let digits := dropUnderscores body
  if digits ≠ [] ∧ digits.all (isDigitOf radix) then some (valueOf radix digits) else none

/-- The integer that a literal denotes. -/
def integerValue? : List Char → Option Int
  | '-' :: rest => (magnitude? rest).map fun n => -Int.ofNat n
  | cs => (magnitude? cs).map Int.ofNat

/-- The sign of a literal, and what is after it. -/
def splitSign : List Char → String × List Char
  | '-' :: rest => ("-", rest)
  | cs => ("", cs)

theorem splitSign_of_ne (h : ∀ rest, cs ≠ '-' :: rest) : splitSign cs = ("", cs) := by
  unfold splitSign
  split
  · exact absurd rfl (h _)
  · rfl

theorem integerValue?_eq (cs) : integerValue? cs = (magnitude? (splitSign cs).2).map fun n =>
    if (splitSign cs).1 = "-" then -Int.ofNat n else Int.ofNat n := by
  unfold integerValue? splitSign
  split
  · rfl
  · rfl

theorem integerValue?_of_ne (h : ∀ rest, cs ≠ '-' :: rest) :
    integerValue? cs = (magnitude? cs).map Int.ofNat := by
  rw [integerValue?_eq, splitSign_of_ne h]
  rfl

theorem isDigitOf_ten (h : c.isDigit = true) : isDigitOf 10 c = true := by
  have hbounds : 48 ≤ c.toNat ∧ c.toNat ≤ 57 := by
    simp only [Char.isDigit, Bool.and_eq_true, decide_eq_true_eq] at h
    exact h
  have hlt : digitValue c < 10 := by
    rw [digitValue, if_pos h]
    change c.toNat - 48 < 10
    omega
  simp [isDigitOf, h, hlt]

/-- Decimal digits announce no radix. -/
theorem splitRadix_of_isDigitOf (h : ∀ c ∈ dropUnderscores cs, isDigitOf 10 c = true) :
    splitRadix cs = (10, cs) := by
  unfold splitRadix
  split
  · exact absurd (h 'x' (by simp [dropUnderscores])) (by decide)
  · exact absurd (h 'b' (by simp [dropUnderscores])) (by decide)
  · exact absurd (h 'o' (by simp [dropUnderscores])) (by decide)
  · rfl

theorem dropUnderscores_of_isDigit (h : ∀ c ∈ cs, c.isDigit = true) : dropUnderscores cs = cs := by
  rw [dropUnderscores, List.filter_eq_self]
  intro c hc
  rw [bne_iff_ne]
  rintro rfl
  exact absurd (h _ hc) (by decide)

theorem magnitude?_of_isDecimal (h : isDecimal cs = true) :
    magnitude? cs = some (valueOf 10 cs) ∧ splitRadix cs = (10, cs) := by
  obtain ⟨hne, hdigits⟩ : cs ≠ [] ∧ ∀ c ∈ cs, c.isDigit = true := by
    simpa [isDecimal] using h
  have hall (c : Char) (hc : c ∈ cs) : isDigitOf 10 c = true := isDigitOf_ten (hdigits c hc)
  have hplain := dropUnderscores_of_isDigit hdigits
  have hsplit := splitRadix_of_isDigitOf (hplain.symm ▸ hall)
  refine ⟨?_, hsplit⟩
  simp only [magnitude?, hsplit, hplain]
  exact if_pos ⟨hne, List.all_eq_true.2 hall⟩

theorem isDigit_of_mem_toDigits (n : Nat) : ∀ c ∈ Nat.toDigits 10 n, c.isDigit = true :=
  fun _ hc => Nat.isDigit_of_mem_toDigits (by decide) (by decide) hc

theorem isDecimal_toDigits (n : Nat) : isDecimal (Nat.toDigits 10 n) = true := by
  simpa [isDecimal] using isDigit_of_mem_toDigits n

theorem toList_toString (n : Nat) : (toString n).toList = Nat.toDigits 10 n := by
  simp

/-- A number written with decimal digits is read back. -/
theorem magnitude?_toString (n : Nat) : magnitude? (toString n).toList = some n := by
  rw [toList_toString, (magnitude?_of_isDecimal (isDecimal_toDigits n)).1,
    Dump.valueOf_eq_ofDigitChars (isDigit_of_mem_toDigits n), Nat.ofDigitChars_ten_toDigits]

theorem toString_ne_neg (n : Nat) (rest) : (toString n).toList ≠ '-' :: rest := by
  intro h
  have hneg : '-' ∈ Nat.toDigits 10 n := by
    rw [← toList_toString, h]
    exact List.mem_cons_self
  exact absurd (isDigit_of_mem_toDigits n _ hneg) (by decide)

theorem integerValue?_toString (n : Nat) : integerValue? (toString n).toList = some (n : Int) := by
  rw [integerValue?_of_ne (toString_ne_neg n), magnitude?_toString]
  rfl

/-- What is read from a decimal numeral is the integer that the literal denotes. -/
theorem eq_of_readInteger (hread : readInteger cs = some n) (hvalue : integerValue? cs = some m) :
    m = n := by
  unfold readInteger at hread
  dsimp only at hread
  split at hread
  · next rest =>
    cases hvalue
  · next rest =>
    obtain ⟨⟨hdecimal, -⟩, heq⟩ := Option.ite_none_right_eq_some.1 hread
    have hvalue : (magnitude? rest).map (fun n => -Int.ofNat n) = some m := hvalue
    rw [(magnitude?_of_isDecimal hdecimal).1] at hvalue
    cases hvalue
    cases heq
    rfl
  · next hplus hneg =>
    obtain ⟨⟨hdecimal, -⟩, heq⟩ := Option.ite_none_right_eq_some.1 hread
    rw [integerValue?_of_ne hneg, (magnitude?_of_isDecimal hdecimal).1] at hvalue
    cases hvalue
    cases heq
    rfl

/-- A number after the sign of another literal is cut there again. -/
theorem splitSign_append_toString (cs) (n : Nat) :
    splitSign ((splitSign cs).1 ++ toString n).toList =
      ((splitSign cs).1, (toString n).toList) := by
  have hsign : (splitSign cs).1 = "-" ∨ (splitSign cs).1 = "" := by
    unfold splitSign
    split
    · exact .inl rfl
    · exact .inr rfl
  rcases hsign with hsign | hsign
  · rw [hsign, String.toList_append]
    rfl
  · rw [hsign, String.empty_append, splitSign_of_ne (toString_ne_neg n)]

/-- A numeral is kept, or written with decimal digits if it is octal. -/
theorem normalizeInteger_eq (raw) :
    normalizeInteger raw = (magnitude? (splitSign raw.toList).2).bind fun n =>
      if (splitRadix (splitSign raw.toList).2).1 = 8 then
        if n < Nat.pow 2 128 then some ((splitSign raw.toList).1 ++ toString n) else none
      else some raw := by
  have hcut : normalizeInteger raw =
      (let signed := splitSign raw.toList
      let announced := splitRadix signed.2
      let plain := dropUnderscores announced.2
      if plain.isEmpty || !plain.all (isDigitOf announced.1) then none
      else if announced.1 = 8 then
        if valueOf 8 plain < Nat.pow 2 128 then some (signed.1 ++ toString (valueOf 8 plain))
        else none
      else some raw) := rfl
  rw [hcut]
  simp only [magnitude?]
  generalize splitRadix (splitSign raw.toList).2 = announced
  obtain ⟨radix, body⟩ := announced
  split
  · next hrefused =>
    rw [if_neg (by simpa [Classical.or_iff_not_imp_left] using hrefused), Option.bind_none]
  · next haccepted =>
    have hall : dropUnderscores body ≠ [] ∧
        (dropUnderscores body).all (isDigitOf radix) = true := by
      simpa using haccepted
    rw [if_pos hall, Option.bind_some]
    split
    · next hoctal => rw [hoctal]
    · rfl

/-- Rewriting an integer literal keeps the integer that it denotes. -/
theorem integerValue?_of_normalizeInteger (h : normalizeInteger raw = some text) :
    ∃ n, integerValue? raw.toList = some n ∧ integerValue? text.toList = some n := by
  rw [normalizeInteger_eq] at h
  obtain ⟨n, hn, h⟩ := Option.bind_eq_some_iff.1 h
  refine ⟨_, by rw [integerValue?_eq, hn]; rfl, ?_⟩
  split at h
  · obtain ⟨-, htext⟩ := Option.ite_none_right_eq_some.1 h
    cases htext
    rw [integerValue?_eq, splitSign_append_toString, magnitude?_toString]
    rfl
  · cases h
    rw [integerValue?_eq, hn]
    rfl

end Text

namespace Swift

/-! ## Trees -/

/-- If the node is an integer literal, it denotes an integer. -/
def Node.DenotesInteger (node : Node) : Prop :=
  ∀ text, node.construct = .literal (.integer text) →
    ∃ n, Text.integerValue? text.toList = some n

theorem Reading.integer_gives (raw) :
    Gives (fun construct => ∃ text n, construct = .literal (.integer text) ∧
      Text.integerValue? text.toList = some n) (integer raw) := by
  apply Gives.bind
  intro written
  split
  · next text hnormal =>
    obtain ⟨n, -, hn⟩ := Text.integerValue?_of_normalizeInteger hnormal
    exact .pure ⟨text, n, rfl, hn⟩
  · exact .error _

theorem Construct.read_denotes (raw) :
    Reading.Gives (fun construct => ∀ text, construct = .literal (.integer text) →
      ∃ n, Text.integerValue? text.toList = some n) (Construct.read raw) := by
  unfold Construct.read
  split
  · exact .ok fun text htext => by cases htext
  · apply Reading.Gives.bind
    intro _
    split
    · next tag htag =>
      intro construct hread text htext
      subst htext
      -- only the reading for integer literals gives one
      have hown : Tag.integerLiteral = tag := Reading.asTagged_tag raw tag _ hread
      subst hown
      obtain ⟨_, n, htext, hn⟩ := Reading.integer_gives raw _ hread
      cases htext
      exact ⟨n, hn⟩
    · exact .error _

namespace Node

theorem denotesInteger_ofRaw (raw) : (ofRaw raw).DenotesInteger := by
  intro text htext
  cases hread : Construct.read raw with
  | error flaw =>
    rw [ofRaw_of_error hread] at htext
    cases htext
  | ok construct =>
    rw [ofRaw_of_ok hread] at htext
    cases construct with
    | literal value =>
      cases htext
      exact Construct.read_denotes raw _ hread text rfl
    | _ => cases htext

/-- Every integer literal in a tree that was read denotes an integer. -/
theorem denotesInteger_of_standsIn_ofDump {part : Node}
    (h : part.StandsIn role ((ofDump raw).run found).1) : part.DenotesInteger := by
  rw [ofDump, ofDumpWithin_eq] at h
  have hraw : OriginatesIn raw (ofRaw raw) := ⟨raw, .self, rfl⟩
  obtain ⟨inner, -, rfl⟩ := hraw.of_standsIn h
  exact denotesInteger_ofRaw inner

end Node

end Swift

end SwiftToKotlin
