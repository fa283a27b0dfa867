import SwiftToKotlin.Proofs.Swift.TyTokens

/-!
# What the reader of types gives

Every type that is read ends at a later position and is of a certain form, for instance no tuple of
one element and no array under its long name. What stands inside of it is read from later positions
only, so that as much fuel as there are characters never runs out.
-/

namespace SwiftToKotlin.Swift

open TyParser
open Text (trimStart trimStart_suffix)

/-! ## Types that are read -/

/-- The types that the reader gives: names are names, a notation of its own is used where there is
one, and there are no tuples of one element. -/
inductive Ty.Readable : Ty → Prop
  | named (hname : IsTypeName name) (hplain : ofName name generics = .named name generics)
      (hgenerics : ∀ ty ∈ generics, Readable ty) : Readable (.named name generics)
  | optional (h : Readable wrapped) : Readable (.optional wrapped)
  | implicitlyUnwrapped (h : Readable wrapped) :
      Readable (.implicitlyUnwrapped wrapped)
  | array (h : Readable element) : Readable (.array element)
  | dictionary (hkey : Readable key) (hvalue : Readable value) :
      Readable (.dictionary key value)
  | tuple (hlength : elements.length ≠ 1)
      (helements : ∀ ty ∈ elements, Readable ty) : Readable (.tuple elements)
  | function (throws : Bool) (hparams : ∀ ty ∈ params, Readable ty) (hresult : Readable result) :
      Readable (.function params result throws)

namespace TyParser

theorem isPart_of_identifier (h : identifier cs = some (name, rest)) : IsPart name := by
  unfold identifier at h
  dsimp only at h
  split at h
  · cases h
  · next hne =>
    cases h
    exact ⟨by simpa using hne, by simpa using fun c => List.all_eq_true.1 List.all_takeWhile c⟩

theorem exists_dotted_of_dottedRest (h : dottedRest first cs = .ok (name, rest)) :
    rest <:+ cs ∧ ∃ parts, name = dotted first parts ∧ ∀ part ∈ parts, IsPart part := by
  fun_induction dottedRest first cs with
  | case1 first cs part after hpart ih =>
    obtain ⟨hrest, parts, rfl, hparts⟩ := ih h
    refine ⟨hrest.trans ((later_identifier hpart).suffix.trans (List.suffix_cons ..)), ?_⟩
    exact ⟨part :: parts, rfl, List.forall_mem_cons.2 ⟨isPart_of_identifier hpart, hparts⟩⟩
  | case2 first cs hpart => cases h
  | case3 first cs hcs =>
    cases h
    exact ⟨List.suffix_rfl, [], rfl, by simp⟩

theorem attribute?_skipAttributes (cs) : attribute? (skipAttributes cs) = none := by
  fun_induction skipAttributes cs with
  | case1 cs rest _ ih => exact ih
  | case2 cs h => exact h

theorem attribute?_trimStart (cs) : attribute? (trimStart cs) = attribute? cs := by
  simp only [attribute?, eatKeyword, identifier, eat, Text.trimStart_trimStart]

theorem readable_ofName (hname : IsTypeName name)
    (h : ∀ ty ∈ types, ty.Readable) : (ofName name types).Readable := by
  by_cases hplain : ofName name types = .named name types
  · rw [hplain]
    exact .named hname hplain h
  · unfold ofName at hplain ⊢
    split <;> simp_all [Ty.Readable.array, Ty.Readable.optional, Ty.Readable.dictionary]

theorem skipAttributes_suffix (cs) : skipAttributes cs <:+ cs := by
  fun_induction skipAttributes cs with
  | case1 cs rest h ih => exact ih.trans (later_attribute? h).suffix
  | case2 cs => exact List.suffix_rfl

theorem skipLabel_suffix (cs) : skipLabel cs <:+ cs := by
  fun_cases skipLabel cs with
  | case1 => exact List.suffix_rfl
  | case2 name behind hname rest hcolon =>
    exact ((later_eat hcolon (by decide)).after (later_identifier hname).suffix).suffix
  | case3 => exact List.suffix_rfl
  | case4 name behind hname _ second more hsecond =>
    cases hcolon : eat ":" more with
    | none => exact List.suffix_rfl
    | some rest =>
      have hmore : Later more cs := (later_identifier hsecond).after (later_identifier hname).suffix
      exact ((later_eat hcolon (by decide)).after hmore.suffix).suffix

/-! ## Readings that agree -/

/-- The two readings of one text say the same: if they succeed, what they give is good and what they
leave of the text is later. -/
structure Alike (cs : List Char) (good : α → Prop) (first second : Except TyFault (α × List Char)) :
    Prop where
  eq : first = second
  result : ∀ {a rest}, first = .ok (a, rest) → good a ∧ Later rest cs

namespace Alike

theorem error (fault : TyFault) : Alike cs good (.error fault) (.error fault) := by
  refine ⟨rfl, fun heq => ?_⟩
  cases heq

theorem ok (ha : good a) (h : Later rest cs) : Alike cs good (.ok (a, rest)) (.ok (a, rest)) := by
  refine ⟨rfl, fun heq => ?_⟩
  cases heq
  exact ⟨ha, h⟩

theorem after (h : Alike more good first second) (hmore : more <:+ cs) :
    Alike cs good first second :=
  ⟨h.eq, fun heq => (h.result heq).imp_right fun hlater => hlater.after hmore⟩

theorem bind {next next' : α × List Char → Except TyFault (β × List Char)}
    (h : Alike cs good first second)
    (hnext : ∀ a rest, good a → Later rest cs → Alike cs best (next (a, rest)) (next' (a, rest))) :
    Alike cs best (first >>= next) (second >>= next') := by
  obtain ⟨rfl, hresult⟩ := h
  cases first with
  | error fault => exact .error fault
  | ok result => exact hnext _ _ (hresult rfl).1 (hresult rfl).2

theorem expect (hne : token ≠ "")
    (hnext : ∀ rest, Later rest cs → Alike more good (next rest) (next' rest)) :
    Alike more good (expect token cs >>= next) (expect token cs >>= next') := by
  unfold TyParser.expect
  cases h : eat token cs with
  | none => exact .error _
  | some rest => exact hnext rest (later_eat h hne)

end Alike

/-- From all later positions the two readers agree and advance, and what they give is readable, if
that is asked for. -/
def AlikeAfter (asked : Prop) (cs : List Char) (inner inner' : Reader) : Prop :=
  ∀ rest, Later rest cs → Alike rest (fun ty => asked → ty.Readable) (inner rest) (inner' rest)

section

variable {inner inner' : Reader}

theorem alike_listUntil (hne : close ≠ "") (hitem : AlikeAfter asked start inner inner')
    (hcs : Later cs start) (hfuel : fuel = fuel' ∨ cs.length < fuel ∧ cs.length < fuel') :
    Alike cs (fun types => asked → ∀ ty ∈ types, ty.Readable) (listUntil close inner fuel cs)
      (listUntil close inner' fuel' cs) := by
  induction fuel generalizing cs fuel' with
  | zero =>
    obtain rfl : 0 = fuel' := by omega
    exact .error _
  | succ fuel ih =>
    obtain ⟨fuel', rfl⟩ : ∃ n, fuel' = n + 1 := Nat.exists_eq_add_one.2 (by omega)
    refine (hitem cs hcs).bind fun ty rest hty hrest => ?_
    dsimp only
    cases hclose : eat close rest with
    | some behind => exact .ok (by simpa using hty) ((later_eat hclose hne).after hrest.suffix)
    | none =>
      refine .expect (by decide) fun behind hcomma => ?_
      have hbehind : Later behind cs := hcomma.after hrest.suffix
      have hlength := hbehind.length_lt
      have henough : fuel = fuel' ∨ behind.length < fuel ∧ behind.length < fuel' := by omega
      have hmore := ih (hbehind.after hcs.suffix) henough
      refine (hmore.after hbehind.suffix).bind fun types last htypes hlast => .ok ?_ hlast
      exact fun h => List.forall_mem_cons.2 ⟨hty h, htypes h⟩

theorem alike_bracketed (hinner : AlikeAfter asked cs inner inner') :
    Alike cs (fun ty => asked → ty.Readable) (bracketed inner cs) (bracketed inner' cs) := by
  refine .expect (by decide) fun behind hopen => ?_
  refine ((hinner behind hopen).after hopen.suffix).bind fun first rest hfirst hrest => ?_
  dsimp only
  cases hcolon : eat ":" rest with
  | some more =>
    have hmore := (later_eat hcolon (by decide)).after hrest.suffix
    refine ((hinner more hmore).after hmore.suffix).bind fun value last hvalue hlast => ?_
    exact .expect (by decide) fun _ hclose =>
      .ok (fun h => .dictionary (hfirst h) (hvalue h)) (hclose.after hlast.suffix)
  | none =>
    exact .expect (by decide) fun _ hclose =>
      .ok (fun h => (hfirst h).array) (hclose.after hrest.suffix)

/-- What becomes of the elements between parentheses, by what comes after them. -/
def afterElements (inner : Reader) (elements : List Ty) (rest : List Char) :
    Except TyFault (Ty × List Char) :=
  let throwing := (eatKeyword "throws" rest).or (eatKeyword "rethrows" rest)
  match eat "->" (throwing.getD rest) with
  | some rest => do
    let (result, rest) ← inner rest
    return (.function elements result throwing.isSome, rest)
  | none =>
    if throwing.isSome then .error .expectedArrow
    else match elements with
      | [single] => return (single, rest)
      | _ => return (.tuple elements, rest)

theorem alike_afterElements (hinner : AlikeAfter asked cs inner inner') (hrest : Later rest cs)
    (elements : List Ty) (helements : asked → ∀ ty ∈ elements, ty.Readable) :
    Alike cs (fun ty => asked → ty.Readable) (afterElements inner elements rest)
      (afterElements inner' elements rest) := by
  unfold afterElements
  have hkeyword :
      ((eatKeyword "throws" rest).or (eatKeyword "rethrows" rest)).getD rest <:+ rest := by
    cases h : (eatKeyword "throws" rest).or (eatKeyword "rethrows" rest) with
    | none => exact List.suffix_rfl
    | some behind =>
      obtain h | ⟨-, h⟩ := Option.or_eq_some_iff.1 h
      · exact (later_eatKeyword h).suffix
      · exact (later_eatKeyword h).suffix
  generalize (eatKeyword "throws" rest).or (eatKeyword "rethrows" rest) = throwing at hkeyword ⊢
  dsimp only
  cases harrow : eat "->" (throwing.getD rest) with
  | some behind =>
    have hbehind := (later_eat harrow (by decide)).after (hkeyword.trans hrest.suffix)
    refine ((hinner behind hbehind).after hbehind.suffix).bind fun result last hresult hlast => ?_
    exact .ok (fun h => .function _ (helements h) (hresult h)) hlast
  | none =>
    dsimp only
    split
    · exact .error _
    · split
      · exact .ok (fun h => helements h _ (by simp)) hrest
      · next hsingle =>
        refine .ok (fun h => .tuple (fun hlength => ?_) (helements h)) hrest
        obtain ⟨single, rfl⟩ := List.length_eq_one_iff.1 hlength
        exact hsingle single rfl

theorem alike_parenthesized (hinner : AlikeAfter asked cs inner inner')
    (hfuel : fuel = fuel' ∨ cs.length ≤ fuel ∧ cs.length ≤ fuel') :
    Alike cs (fun ty => asked → ty.Readable) (parenthesized inner fuel cs)
      (parenthesized inner' fuel' cs) := by
  refine .expect (by decide) fun behind hopen => ?_
  cases hclose : eat ")" behind with
  | some rest =>
    exact alike_afterElements hinner ((later_eat hclose (by decide)).after hopen.suffix) []
      (by simp)
  | none =>
    have hitem : AlikeAfter asked cs (inner ∘ skipLabel) (inner' ∘ skipLabel) := fun rest hrest =>
      have hlabel := skipLabel_suffix rest
      (hinner (skipLabel rest) (hrest.then hlabel)).after hlabel
    have hlength := hopen.length_lt
    have henough : fuel = fuel' ∨ behind.length < fuel ∧ behind.length < fuel' := by omega
    refine ((alike_listUntil (by decide) hitem hopen henough).after hopen.suffix).bind ?_
    exact fun elements rest helements hrest => alike_afterElements hinner hrest elements helements

theorem alike_namedType (hinner : AlikeAfter asked cs inner inner')
    (hcs : asked → attribute? cs = none)
    (hfuel : fuel = fuel' ∨ cs.length ≤ fuel ∧ cs.length ≤ fuel') :
    Alike cs (fun ty => asked → ty.Readable) (namedType inner fuel cs)
      (namedType inner' fuel' cs) := by
  unfold namedType
  cases hfirst : identifier cs with
  | none => exact .error _
  | some found =>
    obtain ⟨first, behind⟩ := found
    have hdotted : Alike cs (fun name => asked → IsTypeName name) (dottedRest first behind)
        (dottedRest first behind) := by
      refine ⟨rfl, fun hdotted => ?_⟩
      obtain ⟨hrest, parts, rfl, hparts⟩ := exists_dotted_of_dottedRest hdotted
      refine ⟨fun h => ?_, (later_identifier hfirst).then hrest⟩
      have hkeyword (word : String) (hword : eatKeyword word cs = none) : first ≠ word := by
        rintro rfl
        simp [eatKeyword, hfirst] at hword
      have hcs := hcs h
      simp only [attribute?, Option.or_eq_none_iff] at hcs
      exact ⟨first, parts, rfl, isPart_of_identifier hfirst, hkeyword _ hcs.1, hkeyword _ hcs.2.1,
        hparts⟩
    refine hdotted.bind fun name rest hname hrest => ?_
    dsimp only
    cases hopen : eat "<" rest with
    | none => exact .ok (fun h => readable_ofName (hname h) (by simp)) hrest
    | some behind =>
      have hbehind := (later_eat hopen (by decide)).after hrest.suffix
      have hlength := hbehind.length_lt
      have henough : fuel = fuel' ∨ behind.length < fuel ∧ behind.length < fuel' := by omega
      refine ((alike_listUntil (by decide) hinner hbehind henough).after hbehind.suffix).bind ?_
      exact fun _ _ hgenerics hlast =>
        .ok (fun h => readable_ofName (hname h) (hgenerics h)) hlast

theorem alike_marks (hty : asked → ty.Readable) (hrest : Later rest cs) :
    Alike cs (fun ty => asked → ty.Readable) (.ok (marks ty rest)) (.ok (marks ty rest)) := by
  fun_induction marks ty rest with
  | case1 ty rest more h ih =>
    exact ih (fun hasked => (hty hasked).optional) ((later_eat h (by decide)).after hrest.suffix)
  | case2 ty rest _ more h ih =>
    exact ih (fun hasked => (hty hasked).implicitlyUnwrapped)
      ((later_eat h (by decide)).after hrest.suffix)
  | case3 ty rest => exact .ok hty hrest

end

theorem alike_typeAt (asked : Prop) (hfuel : fuel = fuel' ∨ cs.length < fuel ∧ cs.length < fuel') :
    Alike cs (fun ty => asked → ty.Readable) (typeAt fuel cs) (typeAt fuel' cs) := by
  induction fuel generalizing cs fuel' with
  | zero =>
    obtain rfl : 0 = fuel' := by omega
    exact .error _
  | succ fuel ih =>
    obtain ⟨fuel', rfl⟩ : ∃ n, fuel' = n + 1 := Nat.exists_eq_add_one.2 (by omega)
    have hstart : trimStart (skipAttributes cs) <:+ cs :=
      (trimStart_suffix _).trans (skipAttributes_suffix cs)
    have hattribute : attribute? (trimStart (skipAttributes cs)) = none := by
      rw [attribute?_trimStart, attribute?_skipAttributes]
    have hlength := hstart.length_le
    rw [typeAt, typeAt]
    generalize trimStart (skipAttributes cs) = start at hstart hattribute hlength
    have hinner : AlikeAfter asked start (typeAt fuel) (typeAt fuel') := fun rest hrest =>
      ih (by have := hrest.length_lt; omega)
    have hmarked {first second : Except TyFault (Ty × List Char)}
        (h : Alike start (fun ty => asked → ty.Readable) first second) :
        Alike cs (fun ty => asked → ty.Readable) (first >>= fun x => pure (marks x.1 x.2))
          (second >>= fun x => pure (marks x.1 x.2)) :=
      (h.after hstart).bind fun _ _ => alike_marks
    split
    · exact .error _
    · exact hmarked (alike_bracketed hinner)
    · exact hmarked (alike_parenthesized hinner (by omega))
    · exact hmarked (alike_namedType hinner (fun _ => hattribute) (by omega))

theorem exists_ok_of_bind_eq_ok {ε α β : Type} {first : Except ε α} {next : α → Except ε β} {b : β}
    (h : first >>= next = .ok b) : ∃ a, first = .ok a ∧ next a = .ok b := by
  cases first with
  | error fault => cases h
  | ok a => exact ⟨a, rfl, h⟩

end TyParser

theorem Ty.readable_of_parse (h : Ty.parse text = .ok ty) : ty.Readable := by
  unfold Ty.parse at h
  cases hchars : parseChars text.toList with
  | error fault =>
    rw [hchars] at h
    cases h
  | ok found =>
    rw [hchars] at h
    cases h
    obtain ⟨⟨first, rest⟩, hfirst, hrest⟩ := exists_ok_of_bind_eq_ok hchars
    have hfound := ((alike_typeAt True (.inl rfl)).result hfirst).1 trivial
    dsimp only at hrest
    split at hrest
    · cases hrest
      exact hfound
    · cases hrest

end SwiftToKotlin.Swift
