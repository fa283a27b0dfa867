import SwiftToKotlin.Swift.Ty
import SwiftToKotlin.Text.Alphanumeric
import SwiftToKotlin.Text.Blank
import SwiftToKotlin.Text.Cut

/-! # Reading Swift types

A recursive-descent reader on the characters of the text. Blanks may stand between tokens;
attributes such as `inout` and `@escaping`, and the labels of tuple elements, are skipped.
-/

namespace SwiftToKotlin.Swift

inductive TyFault
  | expectedType
  | unexpected (rest : String)
  | expected (token : String)
  | expectedArrow
  | expectedName
  deriving DecidableEq

def TyFault.reason : TyFault → String
  | expectedType => "expected a type"
  | unexpected rest => s!"unexpected `{rest}`"
  | expected token => s!"expected `{token}`"
  | expectedArrow => "expected `->` after `throws`"
  | expectedName => "expected a name after `.`"

/-- A text that is no type. -/
structure TyError where
  text : String
  fault : TyFault
  deriving DecidableEq

def TyError.message (error : TyError) : String :=
  s!"invalid type `{error.text}`: {error.fault.reason}"

namespace TyParser

/-! ## Tokens -/

/-- What follows `token`, if it comes next. -/
def eat (token : String) (cs : List Char) : Option (List Char) :=
  let cs := Text.trimStart cs
  if token.toList.isPrefixOf cs then some (cs.drop token.length) else none

def expect (token : String) (cs : List Char) : Except TyFault (List Char) :=
  match eat token cs with
  | some rest => .ok rest
  | none => .error (.expected token)

def identifier (cs : List Char) : Option (String × List Char) :=
  let cs := Text.trimStart cs
  match cs.takeWhile Text.isNameChar with
  | [] => none
  | name => some (String.ofList name, cs.dropWhile Text.isNameChar)

/-- What follows `word`, if it comes next as a whole identifier. -/
def eatKeyword (word : String) (cs : List Char) : Option (List Char) :=
  match identifier cs with
  | some (name, rest) => if name = word then some rest else none
  | none => none

/-- What is left of the text at a later position. -/
structure Later (rest cs : List Char) : Prop where
  suffix : rest <:+ cs
  length_lt : rest.length < cs.length

theorem Later.after {rest more cs : List Char} (h : Later rest more) (hmore : more <:+ cs) :
    Later rest cs :=
  ⟨h.suffix.trans hmore, Nat.lt_of_lt_of_le h.length_lt hmore.length_le⟩

theorem Later.then {rest more cs : List Char} (h : Later more cs) (hrest : rest <:+ more) :
    Later rest cs :=
  ⟨hrest.trans h.suffix, Nat.lt_of_le_of_lt hrest.length_le h.length_lt⟩

theorem later_eat {token : String} {cs rest : List Char} (h : eat token cs = some rest)
    (nonempty : token ≠ "") : Later rest cs := by
  simp only [eat, Option.ite_none_right_eq_some, Option.some.injEq] at h
  obtain ⟨hp, rfl⟩ := h
  have hpos : 0 < token.length := by
    simpa [String.length_eq_zero_iff, Nat.pos_iff_ne_zero] using nonempty
  have hlen : token.toList.length ≤ (Text.trimStart cs).length :=
    (List.isPrefixOf_iff_prefix.1 hp).length_le
  rw [String.length_toList] at hlen
  refine Later.after ⟨List.drop_suffix .., ?_⟩ (Text.trimStart_suffix cs)
  rw [List.length_drop]
  omega

theorem later_identifier {cs rest : List Char} {name : String}
    (h : identifier cs = some (name, rest)) : Later rest cs := by
  unfold identifier at h
  refine Later.after ?_ (Text.trimStart_suffix cs)
  cases hcs : Text.trimStart cs with
  | nil => simp [hcs] at h
  | cons c tail =>
    cases hc : Text.isNameChar c with
    | false => simp [hcs, hc] at h
    | true =>
      simp only [hcs, List.takeWhile_cons, hc, if_true, List.dropWhile_cons, Option.some.injEq,
        Prod.mk.injEq] at h
      refine Later.then ⟨List.suffix_cons c tail, by simp⟩ ?_
      exact h.2 ▸ List.dropWhile_suffix _

theorem later_eatKeyword {word : String} {cs rest : List Char}
    (h : eatKeyword word cs = some rest) : Later rest cs := by
  unfold eatKeyword at h
  split at h
  next name rest' hid =>
    split at h <;> simp only [Option.some.injEq, reduceCtorEq] at h
    exact h ▸ later_identifier hid
  next => simp at h

/-! ## What is skipped -/

/-- The text after one attribute, if there is one. -/
def attribute? (cs : List Char) : Option (List Char) :=
  (eatKeyword "inout" cs).or ((eatKeyword "__owned" cs).or ((eat "@" cs).map fun rest =>
    ((identifier rest).map Prod.snd).getD rest))

theorem later_attribute? {cs rest : List Char} (h : attribute? cs = some rest) :
    Later rest cs := by
  simp only [attribute?, Option.or_eq_some_iff, Option.map_eq_some_iff] at h
  rcases h with h | ⟨_, h | ⟨_, behind, h, rfl⟩⟩
  · exact later_eatKeyword h
  · exact later_eatKeyword h
  · refine (later_eat h (by decide)).then ?_
    cases hid : identifier behind with
    | none => exact List.suffix_rfl
    | some pair => exact (later_identifier hid).suffix

def skipAttributes (cs : List Char) : List Char :=
  match _h : attribute? cs with
  | some rest => skipAttributes rest
  | none => cs
termination_by cs.length
decreasing_by exact (later_attribute? _h).length_lt

/-- The text after a label `name:` or `_ name:`, or the whole text when it has no label. -/
def skipLabel (cs : List Char) : List Char :=
  match identifier cs with
  | none => cs
  | some (_, afterFirst) =>
    match eat ":" afterFirst with
    | some rest => rest
    | none =>
      match identifier afterFirst with
      | none => cs
      | some (_, afterSecond) => (eat ":" afterSecond).getD cs

/-- The type under the question and exclamation marks that follow it. -/
def marks (ty : Ty) (cs : List Char) : Ty × List Char :=
  match _h : eat "?" cs with
  | some rest => marks (.optional ty) rest
  | none =>
    match _h : eat "!" cs with
    | some rest => marks (.implicitlyUnwrapped ty) rest
    | none => (ty, cs)
termination_by cs.length
decreasing_by
  · exact (later_eat _h (by decide)).length_lt
  · exact (later_eat _h (by decide)).length_lt

/-- The further parts of a dotted name, each behind its dot. -/
def dottedRest (name : String) (cs : List Char) : Except TyFault (String × List Char) :=
  match cs with
  | '.' :: rest =>
    match _h : identifier rest with
    | some (part, after) => dottedRest (name ++ "." ++ part) after
    | none => .error .expectedName
  | _ => .ok (name, cs)
termination_by cs.length
decreasing_by
  have := (later_identifier _h).length_lt
  simp only [List.length_cons]
  omega

/-! ## Types -/

/-- Reads one type from the front of a text. -/
abbrev Reader := List Char → Except TyFault (Ty × List Char)

/-- One or more types with commas between them, up to and including `close`. -/
def listUntil (close : String) (item : Reader) :
    Nat → List Char → Except TyFault (List Ty × List Char)
  | 0, _ => .error .expectedType
  | fuel + 1, cs => do
    let (ty, rest) ← item cs
    match eat close rest with
    | some rest => return ([ty], rest)
    | none =>
      let rest ← expect "," rest
      let (more, rest) ← listUntil close item fuel rest
      return (ty :: more, rest)

def bracketed (inner : Reader) : Reader := fun cs => do
  let rest ← expect "[" cs
  let (first, rest) ← inner rest
  match eat ":" rest with
  | some rest =>
    let (value, rest) ← inner rest
    return (.dictionary first value, ← expect "]" rest)
  | none => return (.array first, ← expect "]" rest)

def parenthesized (inner : Reader) (fuel : Nat) : Reader := fun cs => do
  let rest ← expect "(" cs
  let (elements, rest) ← match eat ")" rest with
    | some rest => pure ([], rest)
    | none => listUntil ")" (inner ∘ skipLabel) fuel rest
  let throwing := (eatKeyword "throws" rest).or (eatKeyword "rethrows" rest)
  match eat "->" (throwing.getD rest) with
  | some rest =>
    let (result, rest) ← inner rest
    return (.function elements result throwing.isSome, rest)
  | none =>
    if throwing.isSome then .error .expectedArrow
    else match elements with
      | [single] => return (single, rest)
      | _ => return (.tuple elements, rest)

/-- The built-in types that have a notation of their own stand for that notation. -/
def ofName (name : String) (generics : List Ty) : Ty :=
  match (Text.without "Swift." name).getD name, generics with
  | "Array", [element] => .array element
  | "Optional", [wrapped] => .optional wrapped
  | "Dictionary", [key, value] => .dictionary key value
  | _, _ => .named name generics

def namedType (inner : Reader) (fuel : Nat) : Reader := fun cs => do
  let some (first, rest) := identifier cs
    | .error (.unexpected (String.ofList (Text.trimStart cs)))
  let (name, rest) ← dottedRest first rest
  match eat "<" rest with
  | some rest =>
    let (generics, rest) ← listUntil ">" inner fuel rest
    return (ofName name generics, rest)
  | none => return (ofName name [], rest)

/-- The type at the front of the text. The fuel bounds the nesting and the length of lists. -/
def typeAt : Nat → Reader
  | 0, _ => .error .expectedType
  | fuel + 1, cs => do
    let cs := Text.trimStart (skipAttributes cs)
    let (ty, rest) ← match cs with
      | [] => .error .expectedType
      | '[' :: _ => bracketed (typeAt fuel) cs
      | '(' :: _ => parenthesized (typeAt fuel) fuel cs
      | _ => namedType (typeAt fuel) fuel cs
    return marks ty rest

/-- The type that the whole text denotes. Each step of the reader takes a character, so the length
of the text is fuel enough. -/
def parseChars (cs : List Char) : Except TyFault Ty := do
  let (ty, rest) ← typeAt (cs.length + 1) cs
  match Text.trimStart rest with
  | [] => return ty
  | rest => .error (.unexpected (String.ofList rest))

end TyParser

def Ty.parse (text : String) : Except TyError Ty :=
  (TyParser.parseChars text.toList).mapError (fun fault => { text, fault })

end SwiftToKotlin.Swift
