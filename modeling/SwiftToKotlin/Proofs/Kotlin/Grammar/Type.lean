import Mathlib.Data.List.TakeDrop
import SwiftToKotlin.Kotlin.Ty
import SwiftToKotlin.Text.Alphanumeric

/-!
# Reading types

A type in Kotlin's notation is read back as the type it was written for. After a name the text goes
on with type arguments or question marks only if they follow at once, so what stands behind a type
with a blank between them is never taken for a part of it.
-/

namespace SwiftToKotlin.Kotlin.Grammar

open Text (isNameChar)

/-- The characters of a dotted name of a type. -/
def isTypeNameChar (c : Char) : Bool :=
  isNameChar c || c == '.' || c == '\x60'

/-- The type under the question marks that follow. -/
def marked : Ty → List Char → Ty × List Char
  | ty, '?' :: rest => marked (.nullable ty) rest
  | ty, rest => (ty, rest)

mutual

/-- A type at the beginning of the text and what follows it. Types are nested no deeper than the
text is long. -/
def readType : Nat → List Char → Option (Ty × List Char)
  | 0, _ => none
  | n + 1, '(' :: text =>
    match readTypes n ')' text with
    | some ([inner], '?' :: rest) => some (marked (.nullable inner) rest)
    | some (params, rest) => readResult n params rest
    | none => if text.head? = some ')' then readResult n [] text.tail else none
  | n + 1, text =>
    match text.span isTypeNameChar with
    | ([], _) => none
    | (name, '<' :: rest) =>
      (readTypes n '>' rest).map fun (args, rest) => marked (.named (String.ofList name) args) rest
    | (name, rest) => some (marked (.named (String.ofList name) []) rest)

/-- The result of a function type behind its parameters. -/
def readResult : Nat → List Ty → List Char → Option (Ty × List Char)
  | n + 1, params, ' ' :: '-' :: '>' :: ' ' :: rest =>
    (readType n rest).map fun (result, rest) => (.function params result, rest)
  | _, _, _ => none

/-- Types with commas between them, up to the closing bracket. -/
def readTypes : Nat → Char → List Char → Option (List Ty × List Char)
  | 0, _, _ => none
  | n + 1, close, text =>
    match readType n text with
    | some (first, ',' :: ' ' :: rest) =>
      (readTypes n close rest).map fun (others, rest) => (first :: others, rest)
    | some (first, c :: rest) => if c = close then some ([first], rest) else none
    | _ => none

end

attribute [grind =] readType readResult readTypes

/-! ## Types that can be read -/

variable {rest : List Char}

mutual

/-- All names in the type are dotted names. -/
def IsReadable : Ty → Prop
  | .named name args =>
    name.toList ≠ [] ∧ (∀ c ∈ name.toList, isTypeNameChar c = true) ∧ AreReadable args
  | .nullable inner => IsReadable inner
  | .function params result => AreReadable params ∧ IsReadable result

def AreReadable : List Ty → Prop
  | [] => True
  | ty :: rest => IsReadable ty ∧ AreReadable rest

end

/-- The text does not go on with the name of a type or with type arguments. -/
def EndsName (rest : List Char) : Prop :=
  ∀ c ∈ rest.head?, isTypeNameChar c = false ∧ c ≠ '<'

/-- The text does not go on with a type. -/
def EndsType (rest : List Char) : Prop :=
  EndsName rest ∧ rest.head? ≠ some '?'

theorem EndsType.cons (h : (isTypeNameChar c = false ∧ c ≠ '<') ∧ c ≠ '?') (rest) :
    EndsType (c :: rest) := by
  refine ⟨fun d hd => ?_, by simpa using h.2⟩
  cases hd
  exact h.1

theorem EndsName.mark (rest) : EndsName ('?' :: rest) := by
  intro c hc
  cases hc
  decide

theorem marked_of_endsType (ty : Ty) (h : EndsType rest) : marked ty rest = (ty, rest) := by
  unfold marked
  split
  · exact absurd rfl h.2
  · rfl

/-! ## Reading what is displayed -/

theorem span_of_ends (hname : ∀ c ∈ name, p c = true) (hrest : ∀ c ∈ rest.head?, p c = false) :
    (name ++ rest).span p = (name, rest) := by
  rw [List.span_eq_takeWhile_dropWhile, List.takeWhile_append_of_pos hname,
    List.dropWhile_append_of_pos hname]
  cases rest with
  | nil => simp
  | cons c rest => simp [hrest c rfl]

section Name

variable (hne : name ≠ []) (hname : ∀ c ∈ name, isTypeNameChar c = true) (n : Nat)

include hne hname

theorem ne_paren_of_isTypeNameChar (inside) : name ++ rest ≠ '(' :: inside := by
  obtain ⟨c, cs, rfl⟩ := List.exists_cons_of_ne_nil hne
  intro heq
  cases heq
  exact absurd (hname '(' List.mem_cons_self) (by decide)

theorem readType_of_name (hrest : EndsName rest) :
    readType (n + 1) (name ++ rest) = some (marked (.named (String.ofList name) []) rest) := by
  rw [readType, span_of_ends hname fun c hc => (hrest c hc).1]
  · split
    next heq => exact absurd (Prod.mk.inj heq).1 hne
    next more heq =>
      obtain ⟨-, rfl⟩ := Prod.mk.inj heq
      exact absurd rfl (hrest '<' rfl).2
    next heq =>
      obtain ⟨rfl, rfl⟩ := Prod.mk.inj heq
      rfl
  · exact fun inside => ne_paren_of_isTypeNameChar hne hname inside

theorem readType_of_args (rest) :
    readType (n + 1) (name ++ '<' :: rest) =
      (readTypes n '>' rest).map fun (args, rest) =>
        marked (.named (String.ofList name) args) rest := by
  rw [readType, span_of_ends hname (by simp; decide)]
  · split
    next heq => exact absurd (Prod.mk.inj heq).1 hne
    next heq =>
      cases heq
      rfl
    next hless heq =>
      obtain ⟨rfl, rfl⟩ := Prod.mk.inj heq
      exact absurd rfl (hless rest)
  · exact fun inside => ne_paren_of_isTypeNameChar hne hname inside

end Name

theorem readTypes_nothing (n : Nat) (rest) : readTypes n ')' (')' :: rest) = none := by
  match n with
  | 0 => rfl
  | 1 => rfl
  | n + 2 =>
    have hspan : (')' :: rest).span isTypeNameChar = ([], ')' :: rest) := rfl
    rw [readTypes, readType, hspan]
    simp

/-- The lengths of the signs in a displayed type. -/
theorem lengths : "<".length = 1 ∧ ">".length = 1 ∧ "(".length = 1 ∧ ")".length = 1 ∧
    "?".length = 1 ∧ ", ".length = 2 ∧ ") -> ".length = 5 := by
  decide

theorem displayAll_cons (first : Ty) (rest : List Ty) :
    Ty.displayAll (first :: rest) =
      first.display ++ if rest = [] then "" else ", " ++ Ty.displayAll rest := by
  cases rest with
  | nil => rfl
  | cons next rest =>
    rw [Ty.displayAll, Ty.displayRest, Ty.displayAll]
    simp [String.append_assoc]

theorem readTypes_last (hclose : close ≠ ',') (h : readType n text = some (ty, close :: rest)) :
    readTypes (n + 1) close text = some ([ty], rest) := by
  rw [readTypes, h]
  simp [hclose]

theorem readTypes_next (h : readType n text = some (ty, ',' :: ' ' :: more))
    (hmore : readTypes n close more = some (types, rest)) :
    readTypes (n + 1) close text = some (ty :: types, rest) := by
  rw [readTypes, h]
  simp [hmore]

theorem readType_marked {inner : Ty}
    (h : readTypes n ')' text = some ([inner], '?' :: rest)) :
    readType (n + 1) ('(' :: text) = some (marked (.nullable inner) rest) := by
  rw [readType, h]
  rfl

theorem readType_function
    (h : readTypes n ')' text = some (params, ' ' :: rest)) :
    readType (n + 1) ('(' :: text) = readResult n params (' ' :: rest) := by
  rw [readType, h]
  rcases params with _ | ⟨param, _ | ⟨next, params⟩⟩ <;> rfl

theorem readType_thunk (n : Nat) (rest) :
    readType (n + 1) ('(' :: ')' :: rest) = readResult n [] rest := by
  rw [readType, readTypes_nothing]
  rfl

/-- The type is read back from what it is displayed as. Question marks behind it belong to it,
unless it is a function type, whose result they would belong to. -/
def ReadsBack (ty : Ty) : Prop :=
  ∀ n rest, ty.display.length < n →
    (EndsType rest → readType n (ty.display.toList ++ rest) = some (ty, rest)) ∧
      ((∀ params result, ty ≠ .function params result) → EndsName rest →
        readType n (ty.display.toList ++ rest) = some (marked ty rest))

/-- The types are read back in brackets. -/
def AllReadBack (types : List Ty) : Prop :=
  types ≠ [] → ∀ n close rest, close = ')' ∨ close = '>' →
    (Ty.displayAll types).length + 1 < n →
      readTypes n close ((Ty.displayAll types).toList ++ close :: rest) = some (types, rest)

theorem readsBack_named (hne : name.toList ≠ [])
    (hname : ∀ c ∈ name.toList, isTypeNameChar c = true) (hargs : AllReadBack args) :
    ReadsBack (.named name args) := by
  intro n rest hn
  obtain ⟨n, rfl⟩ : ∃ m, n = m + 1 := ⟨n - 1, by omega⟩
  have hread (hends : EndsName rest) :
      readType (n + 1) ((Ty.named name args).display.toList ++ rest) =
        some (marked (.named name args) rest) := by
    cases args with
    | nil => rw [Ty.display, readType_of_name hne hname n hends, String.ofList_toList]
    | cons first others =>
      have htext : (Ty.named name (first :: others)).display.toList ++ rest =
          name.toList ++ '<' :: ((Ty.displayAll (first :: others)).toList ++ '>' :: rest) := by
        simp [Ty.display, Ty.displayAll]
      have hlist := hargs (by simp) n '>' rest (.inr rfl)
        (by simp [Ty.display, Ty.displayAll, lengths] at hn ⊢; omega)
      rw [htext, readType_of_args hne hname, hlist, String.ofList_toList]
      rfl
  exact ⟨fun hends => by rw [hread hends.1, marked_of_endsType _ hends], fun _ => hread⟩

theorem readsBack_nullable {inner : Ty} (h : ReadsBack inner) : ReadsBack (.nullable inner) := by
  intro n rest hn
  have hread : readType n ((Ty.nullable inner).display.toList ++ rest) =
      some (marked (.nullable inner) rest) := by
    by_cases hfunction : ∃ params result, inner = .function params result
    · have hmarkable : Ty.markable inner inner.display = "(" ++ inner.display ++ ")" := by
        obtain ⟨params, result, rfl⟩ := hfunction
        rfl
      rw [Ty.display, hmarkable] at hn ⊢
      obtain ⟨n, rfl⟩ : ∃ m, n = m + 2 := ⟨n - 2, by simp [lengths] at hn; omega⟩
      have hinner := (h n (')' :: '?' :: rest) (by simp [lengths] at hn; omega)).1
        (.cons (by decide) _)
      have htext : ("(" ++ inner.display ++ ")" ++ "?").toList ++ rest =
          '(' :: (inner.display.toList ++ ')' :: '?' :: rest) := by simp
      rw [htext]
      exact readType_marked (readTypes_last (by decide) hinner)
    · have hmarkable : Ty.markable inner inner.display = inner.display := by
        cases inner with
        | function params result => exact absurd ⟨params, result, rfl⟩ hfunction
        | _ => rfl
      rw [Ty.display, hmarkable] at hn ⊢
      have hinner := (h n ('?' :: rest) (by simp at hn; omega)).2
        (fun params result heq => hfunction ⟨params, result, heq⟩) (.mark rest)
      simpa [marked] using hinner
  exact ⟨fun hends => by rw [hread, marked_of_endsType _ hends], fun _ _ => hread⟩

theorem readsBack_function (hparams : AllReadBack params) (hresult : ReadsBack result) :
    ReadsBack (.function params result) := by
  intro n rest hn
  refine ⟨fun hends => ?_, fun hno => absurd rfl (hno params result)⟩
  rw [Ty.display] at hn ⊢
  obtain ⟨n, rfl⟩ : ∃ m, n = m + 2 := ⟨n - 2, by simp [lengths] at hn; omega⟩
  have hbehind : readResult (n + 1) params
      (' ' :: '-' :: '>' :: ' ' :: (result.display.toList ++ rest)) =
        some (.function params result, rest) := by
    rw [readResult, (hresult n rest (by simp [lengths] at hn; omega)).1 hends]
    rfl
  have htext : ("(" ++ Ty.displayAll params ++ ") -> " ++ result.display).toList ++ rest =
      '(' :: ((Ty.displayAll params).toList ++
        ')' :: ' ' :: '-' :: '>' :: ' ' :: (result.display.toList ++ rest)) := by simp
  rw [htext]
  cases params with
  | nil => exact (readType_thunk _ _).trans hbehind
  | cons first others =>
    have hlist := hparams (by simp) (n + 1) ')'
      (' ' :: '-' :: '>' :: ' ' :: (result.display.toList ++ rest)) (.inl rfl)
      (by simp [lengths] at hn ⊢; omega)
    exact (readType_function hlist).trans hbehind

theorem allReadBack_cons (hfirst : ReadsBack first) (hothers : AllReadBack others) :
    AllReadBack (first :: others) := by
  intro _ n close rest hclose hn
  obtain ⟨n, rfl⟩ : ∃ m, n = m + 1 := ⟨n - 1, by omega⟩
  rw [displayAll_cons] at hn ⊢
  cases others with
  | nil =>
    have hend : EndsType (close :: rest) := by
      rcases hclose with rfl | rfl
      · exact .cons (by decide) rest
      · exact .cons (by decide) rest
    have hcomma : close ≠ ',' := by rcases hclose with rfl | rfl <;> decide
    have hread := (hfirst n (close :: rest) (by simp at hn; omega)).1 hend
    exact readTypes_last hcomma (by simpa using hread)
  | cons next others =>
    have hread := (hfirst n
      (',' :: ' ' :: ((Ty.displayAll (next :: others)).toList ++ close :: rest))
      (by simp at hn; omega)).1 (.cons (by decide) _)
    have hmore := hothers (by simp) n close rest hclose (by simp [lengths] at hn ⊢; omega)
    exact readTypes_next (by simpa using hread) hmore

mutual

theorem readsBack : (ty : Ty) → IsReadable ty → ReadsBack ty
  | .named _ args, h => readsBack_named h.1 h.2.1 (allReadBack args h.2.2)
  | .nullable inner, h => readsBack_nullable (readsBack inner h)
  | .function params result, h => readsBack_function (allReadBack params h.1) (readsBack result h.2)

theorem allReadBack : (types : List Ty) → AreReadable types → AllReadBack types
  | [], _ => fun hne => absurd rfl hne
  | ty :: rest, h => allReadBack_cons (readsBack ty h.1) (allReadBack rest h.2)

end

end SwiftToKotlin.Kotlin.Grammar
