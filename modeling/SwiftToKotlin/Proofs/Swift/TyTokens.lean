import Mathlib.Tactic.Tauto
import SwiftToKotlin.Swift.TyParser

/-!
# The tokens of a type

What the reader of types does with a single token: with the blanks before it, with the signs of the
notation, with dotted names, and with the marks after a type. The notation around a type stops it
with one of a few signs.
-/

namespace SwiftToKotlin

/-! ## Characters -/

namespace Text

/-- The code points of the blanks. -/
def blankCodes : List Nat :=
  [0x9, 0xA, 0xB, 0xC, 0xD, 0x20, 0x85, 0xA0, 0x1680, 0x2000, 0x2001, 0x2002, 0x2003, 0x2004,
    0x2005, 0x2006, 0x2007, 0x2008, 0x2009, 0x200A, 0x2028, 0x2029, 0x202F, 0x205F, 0x3000]

theorem mem_blankCodes (h : isBlank c = true) : c.toNat ∈ blankCodes := by
  simp [isBlank] at h
  simp [blankCodes]
  omega

theorem isBlank_eq_false_of_isNameChar (h : isNameChar c = true) : isBlank c = false := by
  have hcodes : ∀ n ∈ blankCodes, isNameChar (Char.ofNat n) = false := by decide +kernel
  cases hblank : isBlank c with
  | false => rfl
  | true =>
    have hname := hcodes _ (mem_blankCodes hblank)
    rw [Char.ofNat_toNat, h] at hname
    cases hname

theorem trimStart_cons (cs) (h : isBlank c = false) : trimStart (c :: cs) = c :: cs := by
  simp [trimStart, h]

theorem trimStart_space (cs) : trimStart (' ' :: cs) = trimStart cs := by
  simp [trimStart, isBlank]

theorem trimStart_trimStart (cs) : trimStart (trimStart cs) = trimStart cs := by
  induction cs with
  | nil => rfl
  | cons c rest ih =>
    cases hc : isBlank c with
    | true => simpa [trimStart, hc] using ih
    | false => simp [trimStart, hc]

/-- The characters of the notation for types that belong to no name. -/
def signs : List Char :=
  ['[', ']', '(', ')', '<', '>', ',', ':', '?', '!', '.', '@', '-']

theorem isNameChar_of_mem_signs : ∀ c ∈ signs, isNameChar c = false := by
  -- over the list alone: there are too many characters to go through them all
  have hall : signs.all (!isNameChar ·) = true := by decide +kernel
  simpa using hall

theorem isBlank_of_mem_signs : ∀ c ∈ signs, isBlank c = false := by
  have hall : signs.all (!isBlank ·) = true := by decide
  simpa using hall

end Text

namespace Swift.TyParser

open Text (isNameChar isBlank trimStart)

/-! ## Blanks before a token -/

theorem eat_space (token : String) (cs) : eat token (' ' :: cs) = eat token cs := by
  unfold eat
  rw [Text.trimStart_space]

theorem identifier_space (cs) : identifier (' ' :: cs) = identifier cs := by
  unfold identifier
  rw [Text.trimStart_space]

theorem eatKeyword_space (word : String) (cs) :
    eatKeyword word (' ' :: cs) = eatKeyword word cs := by
  unfold eatKeyword
  rw [identifier_space]

theorem trimStart_skipAttributes_space (cs) :
    trimStart (skipAttributes (' ' :: cs)) = trimStart (skipAttributes cs) := by
  have hattribute : attribute? (' ' :: cs) = attribute? cs := by
    unfold attribute?
    rw [eatKeyword_space, eatKeyword_space, eat_space]
  rw [skipAttributes, skipAttributes]
  split
  · next rest h =>
    rw [hattribute] at h
    rw [h]
  · next h =>
    rw [hattribute] at h
    rw [h]
    exact Text.trimStart_space cs

theorem typeAt_space (fuel : Nat) (cs) : typeAt fuel (' ' :: cs) = typeAt fuel cs := by
  cases fuel with
  | zero => rfl
  | succ fuel =>
    rw [typeAt, typeAt]
    rw [trimStart_skipAttributes_space]

/-- A blank before a label goes with it; without a label the type after it is read. -/
theorem typeAt_skipLabel_space (fuel : Nat) (cs) :
    typeAt fuel (skipLabel (' ' :: cs)) = typeAt fuel (skipLabel cs) := by
  unfold skipLabel
  rw [identifier_space]
  split
  · exact typeAt_space fuel cs
  · split
    · rfl
    · split
      · exact typeAt_space fuel cs
      · next after _ =>
        cases eat ":" after with
        | none => exact typeAt_space fuel cs
        | some rest => rfl

/-! ## Single tokens -/

/-- A token, where no blank comes before it. -/
theorem eat_nonblank (hc : isBlank c = false) (token : String) (cs) :
    eat token (c :: cs) = if token.toList <+: c :: cs then
      some ((c :: cs).drop token.toList.length) else none := by
  rw [String.length_toList]
  simp [eat, Text.trimStart_cons cs hc]

theorem eat_eq_none (htoken : token.toList = c :: more) (h : ∀ d ∈ (trimStart cs).head?, d ≠ c) :
    eat token cs = none := by
  unfold eat
  cases hcs : trimStart cs with
  | nil => simp [htoken]
  | cons d rest =>
    have hne : d ≠ c := h d (by simp [hcs])
    simp [htoken, hne.symm]

theorem identifier_append (hne : name ≠ []) (hname : ∀ c ∈ name, isNameChar c = true)
    (hrest : ∀ c ∈ rest.head?, isNameChar c = false) :
    identifier (name ++ rest) = some (String.ofList name, rest) := by
  have htrim : trimStart (name ++ rest) = name ++ rest := by
    cases name with
    | nil => exact absurd rfl hne
    | cons c cs =>
      exact Text.trimStart_cons _ (Text.isBlank_eq_false_of_isNameChar (hname c (by simp)))
  have hstop : rest.takeWhile isNameChar = [] ∧ rest.dropWhile isNameChar = rest := by
    cases rest with
    | nil => exact ⟨rfl, rfl⟩
    | cons c cs => simp [hrest c (by simp)]
  unfold identifier
  rw [htrim]
  dsimp only
  rw [List.takeWhile_append_of_pos hname, List.dropWhile_append_of_pos hname, hstop.1, hstop.2,
    List.append_nil]
  cases name with
  | nil => exact absurd rfl hne
  | cons c cs => rfl

theorem identifier_eq_none (h : ∀ c ∈ (trimStart cs).head?, isNameChar c = false) :
    identifier cs = none := by
  unfold identifier
  cases hcs : trimStart cs with
  | nil => rfl
  | cons c rest =>
    have hc := h c (by simp [hcs])
    simp [hc]

/-! ## What follows a type -/

/-- The text after a type that has no further marks: it is over, or a sign of the notation around
it comes next. -/
def Stops (rest : List Char) : Prop :=
  ∀ c ∈ rest.head?, c ∈ [']', ')', '>', ',', ':']

/-- The text after a type, which may have further marks. -/
def StopsOrMarks (rest : List Char) : Prop :=
  ∀ c ∈ rest.head?, c ∈ [']', ')', '>', ',', ':', '?', '!']

theorem Stops.orMarks (h : Stops rest) : StopsOrMarks rest := by
  intro c hc
  have hmem := h c hc
  simp only [List.mem_cons, List.not_mem_nil] at hmem ⊢
  tauto

theorem stops_cons (h : c ∈ [']', ')', '>', ',', ':']) (cs : List Char) : Stops (c :: cs) := by
  intro d hd
  cases hd
  exact h

theorem stopsOrMarks_cons (h : c ∈ [']', ')', '>', ',', ':', '?', '!']) (cs : List Char) :
    StopsOrMarks (c :: cs) := by
  intro d hd
  cases hd
  exact h

namespace StopsOrMarks

variable (h : StopsOrMarks rest)

include h

theorem mem_signs : ∀ c ∈ rest.head?, c ∈ Text.signs := by
  intro c hc
  have hmem := h c hc
  simp only [List.mem_cons, List.not_mem_nil, Text.signs] at hmem ⊢
  tauto

theorem trimStart_eq : trimStart rest = rest := by
  cases rest with
  | nil => rfl
  | cons c cs => exact Text.trimStart_cons cs (Text.isBlank_of_mem_signs c (h.mem_signs c rfl))

theorem isNameChar_eq_false : ∀ c ∈ rest.head?, isNameChar c = false :=
  fun c hc => Text.isNameChar_of_mem_signs c (h.mem_signs c hc)

theorem identifier_eq_none : identifier rest = none :=
  TyParser.identifier_eq_none (by rw [h.trimStart_eq]; exact h.isNameChar_eq_false)

theorem eatKeyword_eq_none (word : String) : eatKeyword word rest = none := by
  unfold eatKeyword
  rw [h.identifier_eq_none]

theorem eat_eq_none (htoken : token.toList = c :: more)
    (hc : c ∉ [']', ')', '>', ',', ':', '?', '!']) : eat token rest = none := by
  refine TyParser.eat_eq_none htoken ?_
  rw [h.trimStart_eq]
  rintro d hd rfl
  exact hc (h d hd)

end StopsOrMarks

theorem Stops.eat_eq_none (h : Stops rest) (htoken : token.toList = c :: more)
    (hc : c ∉ [']', ')', '>', ',', ':']) : eat token rest = none := by
  refine TyParser.eat_eq_none htoken ?_
  rw [h.orMarks.trimStart_eq]
  rintro d hd rfl
  exact hc (h d hd)

theorem marks_eq (ty : Ty) (cs) :
    marks ty cs = ((eat "?" cs).map (marks (.optional ty))).getD
      (((eat "!" cs).map (marks (.implicitlyUnwrapped ty))).getD (ty, cs)) := by
  rw [marks]
  split <;> next hquestion =>
    rw [hquestion]
    first | rfl | split <;> next hbang => rw [hbang]; rfl

theorem marks_of_stops (h : Stops rest) (ty : Ty) : marks ty rest = (ty, rest) := by
  have hquestion : eat "?" rest = none := h.eat_eq_none rfl (by decide)
  have hbang : eat "!" rest = none := h.eat_eq_none rfl (by decide)
  rw [marks_eq, hquestion, hbang]
  rfl

theorem marks_question (ty : Ty) (rest) : marks ty ('?' :: rest) = marks (.optional ty) rest :=
  marks_eq ty _

theorem marks_bang (ty : Ty) (rest) :
    marks ty ('!' :: rest) = marks (.implicitlyUnwrapped ty) rest :=
  marks_eq ty _

/-! ## Names -/

/-- A part of a dotted name. -/
structure IsPart (part : String) : Prop where
  ne_nil : part.toList ≠ []
  isNameChar : ∀ c ∈ part.toList, isNameChar c = true

/-- A dotted name from its parts. -/
def dotted (first : String) (parts : List String) : String :=
  parts.foldl (fun name part => name ++ "." ++ part) first

theorem toList_dotted (first : String) (parts) :
    (dotted first parts).toList = first.toList ++ parts.flatMap fun part => '.' :: part.toList := by
  induction parts generalizing first with
  | nil => simp [dotted]
  | cons part rest ih =>
    have hfirst : dotted first (part :: rest) = dotted (first ++ "." ++ part) rest := rfl
    rw [hfirst, ih]
    simp

/-- The names that types are read with. An attribute in front would be skipped. -/
def IsTypeName (name : String) : Prop :=
  ∃ first parts, name = dotted first parts ∧ IsPart first ∧ first ≠ "inout" ∧ first ≠ "__owned" ∧
    ∀ part ∈ parts, IsPart part

/-- What holds of a dot and of what follows a name holds of what follows its first part. -/
theorem head?_parts {P : Char → Prop} (hdot : P '.') (hrest : ∀ c ∈ rest.head?, P c)
    (parts : List String) :
    ∀ c ∈ ((parts.flatMap fun part => '.' :: part.toList) ++ rest).head?, P c := by
  cases parts with
  | nil => exact hrest
  | cons part parts =>
    rintro c ⟨⟩
    exact hdot

theorem IsPart.identifier_append (h : IsPart part)
    (hrest : ∀ c ∈ rest.head?, Text.isNameChar c = false) :
    identifier (part.toList ++ rest) = some (part, rest) := by
  rw [TyParser.identifier_append h.ne_nil h.isNameChar hrest, String.ofList_toList]

theorem dottedRest_dotted (hparts : ∀ part ∈ parts, IsPart part)
    (hrest : ∀ c ∈ rest.head?, isNameChar c = false ∧ c ≠ '.') (first : String) :
    dottedRest first ((parts.flatMap fun part => '.' :: part.toList) ++ rest) =
      .ok (dotted first parts, rest) := by
  induction parts generalizing first with
  | nil =>
    rw [List.flatMap_nil, List.nil_append, dottedRest]
    · rfl
    · rintro cs rfl
      exact (hrest '.' rfl).2 rfl
  | cons part parts ih =>
    obtain ⟨hpart, hparts⟩ := List.forall_mem_cons.1 hparts
    have hname := head?_parts (P := fun c => isNameChar c = false) rfl
      (fun c hc => (hrest c hc).1) parts
    have hidentifier := hpart.identifier_append hname
    rw [List.flatMap_cons, List.append_assoc, List.cons_append, dottedRest]
    split
    · next hnext =>
      cases hidentifier.symm.trans hnext
      exact ih hparts _
    · next hnext => simp [hidentifier] at hnext

/-! ## The three forms -/

theorem skipAttributes_eq_self {cs : List Char} (h : attribute? cs = none) :
    skipAttributes cs = cs := by
  rw [skipAttributes]
  split
  · next hsome => simp [h] at hsome
  · rfl

/-- The type with the marks after it. -/
def marked (result : Except TyFault (Ty × List Char)) : Except TyFault (Ty × List Char) :=
  result.map fun (ty, rest) => marks ty rest

theorem typeAt_bracket (fuel : Nat) (cs) :
    typeAt (fuel + 1) ('[' :: cs) = marked (bracketed (typeAt fuel) ('[' :: cs)) := by
  rw [typeAt]
  rw [skipAttributes_eq_self rfl, Text.trimStart_cons cs rfl]
  cases bracketed (typeAt fuel) ('[' :: cs) <;> rfl

theorem typeAt_paren (fuel : Nat) (cs) :
    typeAt (fuel + 1) ('(' :: cs) = marked (parenthesized (typeAt fuel) fuel ('(' :: cs)) := by
  rw [typeAt]
  rw [skipAttributes_eq_self rfl, Text.trimStart_cons cs rfl]
  cases parenthesized (typeAt fuel) fuel ('(' :: cs) <;> rfl

/-- A name that is no attribute. -/
theorem typeAt_name (hfirst : IsPart first) (hinout : first ≠ "inout") (howned : first ≠ "__owned")
    (hrest : ∀ c ∈ rest.head?, isNameChar c = false) (fuel : Nat) :
    typeAt (fuel + 1) (first.toList ++ rest) =
      marked (namedType (typeAt fuel) fuel (first.toList ++ rest)) := by
  have hidentifier := hfirst.identifier_append hrest
  obtain ⟨c, cs, hcs⟩ := List.exists_cons_of_ne_nil hfirst.ne_nil
  have hname : isNameChar c = true := hfirst.isNameChar c (by simp [hcs])
  have hne (d : Char) (hd : isNameChar d = false) : d ≠ c := fun heq => by simp [heq, hname] at hd
  have hblank := Text.isBlank_eq_false_of_isNameChar hname
  have hat : eat "@" (first.toList ++ rest) = none := by
    simp [hcs, eat_nonblank hblank, hne '@' rfl]
  have hskip : attribute? (first.toList ++ rest) = none := by
    simp [attribute?, eatKeyword, hidentifier, hinout, howned, hat]
  rw [typeAt]
  rw [skipAttributes_eq_self hskip, hcs, List.cons_append, Text.trimStart_cons _ hblank]
  split
  · next heq => cases heq
  · next heq => exact absurd (List.cons.inj heq).1.symm (hne '[' rfl)
  · next heq => exact absurd (List.cons.inj heq).1.symm (hne '(' rfl)
  · cases namedType (typeAt fuel) fuel (c :: (cs ++ rest)) <;> rfl

end Swift.TyParser

end SwiftToKotlin
