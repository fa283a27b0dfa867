import SwiftToKotlin.Proofs.Swift.TyReading

/-!
# Reading a type that was written

The reader of types accepts many spellings of one type; `Ty.display` gives one of them. A type that
was read is of a certain form, for instance no tuple of one element and no array under its long
name, and of such a type the notation is read as the type again, whatever stops it.
-/

namespace SwiftToKotlin.Swift

open TyParser
open Text (isBlank isNameChar trimStart)

/-! ## How notations begin -/

namespace TyParser

/-- What the notation of a type begins with: a bracket, a parenthesis, or a name and a sign that
cannot come after a label. -/
inductive Front : List Char → Prop
  | bracket (cs : List Char) : Front ('[' :: cs)
  | paren (cs : List Char) : Front ('(' :: cs)
  | name {first : String} (hfirst : IsPart first) {tail : List Char}
      (htail : ∀ c ∈ tail.head?, c ∈ ['.', '<', '?', '!']) : Front (first.toList ++ tail)

theorem Front.append_mark (h : Front cs) (hmark : mark ∈ ['.', '<', '?', '!']) :
    Front (cs ++ [mark]) := by
  cases h with
  | bracket cs => exact .bracket (cs ++ [mark])
  | paren cs => exact .paren (cs ++ [mark])
  | @name first hfirst tail htail =>
    rw [List.append_assoc]
    refine .name hfirst fun c hc => ?_
    cases tail with
    | nil =>
      cases hc
      exact hmark
    | cons d rest => exact htail c hc

theorem Front.ne_nil (h : Front cs) : cs ≠ [] := by
  cases h with
  | bracket cs => simp
  | paren cs => simp
  | name hfirst htail => simp [hfirst.ne_nil]

/-- The notation of a type is not the end of the list that it is in. -/
theorem Front.eat_paren_eq_none (h : Front cs) (rest) : eat ")" (cs ++ rest) = none := by
  cases h with
  | bracket cs => rfl
  | paren cs => rfl
  | @name first hfirst tail htail =>
    obtain ⟨c, cs, hcs⟩ := List.exists_cons_of_ne_nil hfirst.ne_nil
    have hname := hfirst.isNameChar c (by simp [hcs])
    have hc : ')' ≠ c := by
      rintro rfl
      cases hname
    simp [hcs, eat_nonblank (Text.isBlank_eq_false_of_isNameChar hname), hc]

/-- The notation of a type has no label. -/
theorem Front.skipLabel_eq (h : Front cs) (hc : c ∈ [')', ',']) (rest : List Char) :
    skipLabel (cs ++ c :: rest) = cs ++ c :: rest := by
  cases h with
  | bracket cs => rfl
  | paren cs => rfl
  | @name first hfirst tail htail =>
    -- the sign after the name is no colon, and no second name follows
    obtain ⟨d, after, hafter, hname, hcolon, hsecond⟩ : ∃ d after, tail ++ c :: rest = d :: after ∧
        isNameChar d = false ∧ eat ":" (d :: after) = none ∧ identifier (d :: after) = none := by
      cases tail with
      | nil =>
        simp only [List.mem_cons, List.not_mem_nil, or_false] at hc
        rcases hc with rfl | rfl <;> exact ⟨_, _, rfl, rfl, rfl, rfl⟩
      | cons d more =>
        have hmem := htail d rfl
        simp only [List.mem_cons, List.not_mem_nil, or_false] at hmem
        rcases hmem with rfl | rfl | rfl | rfl <;> exact ⟨_, _, rfl, rfl, rfl, rfl⟩
    have hhead : ∀ e ∈ (d :: after).head?, isNameChar e = false := by simpa using hname
    have hidentifier := hfirst.identifier_append hhead
    simp [skipLabel, hafter, hidentifier, hcolon, hsecond]

end TyParser

/-! ## The characters of the notation -/

attribute [grind =] Ty.display Ty.displayAll Ty.displayRest

theorem toList_display_named (name : String) (hne : types ≠ []) :
    (Ty.named name types).display.toList =
      name.toList ++ '<' :: ((Ty.displayAll types).toList ++ ['>']) := by
  cases types with
  | nil => exact absurd rfl hne
  | cons first rest => simp [Ty.display, Ty.displayAll]

theorem toList_displayAll_singleton (element : Ty) :
    (Ty.displayAll [element]).toList = element.display.toList := by
  simp [Ty.displayAll, Ty.displayRest]

theorem toList_displayAll_cons_cons (first next : Ty) (types : List Ty) :
    (Ty.displayAll (first :: next :: types)).toList =
      first.display.toList ++ ',' :: ' ' :: (Ty.displayAll (next :: types)).toList := by
  simp [Ty.displayAll, Ty.displayRest]

theorem toList_markable_function (params : List Ty) (result : Ty) (throws : Bool) (text : String) :
    ((Ty.function params result throws).markable text).toList = '(' :: (text.toList ++ [')']) := by
  change ("(" ++ text ++ ")").toList = _
  simp

theorem Ty.Readable.front {ty : Ty} (h : ty.Readable) : Front ty.display.toList := by
  have hmarked {wrapped : Ty} (h : Front wrapped.display.toList) :
      Front (wrapped.markable wrapped.display).toList := by
    cases wrapped with
    | function params result throws =>
      rw [toList_markable_function]
      exact .paren _
    | _ => exact h
  induction h with
  | @named name generics hname =>
    obtain ⟨first, parts, rfl, hfirst, -, -, -⟩ := hname
    by_cases hne : generics = []
    · have htext := toList_dotted first parts
      rw [hne, Ty.display, htext, ← List.append_nil (parts.flatMap _)]
      exact .name hfirst (head?_parts (by decide) (by simp) parts)
    · rw [toList_display_named _ hne, toList_dotted, List.append_assoc]
      exact .name hfirst (head?_parts (by decide) (by simp) parts)
  | optional _ ih =>
    rw [Ty.display, String.toList_append]
    exact (hmarked ih).append_mark (by decide)
  | implicitlyUnwrapped _ ih =>
    rw [Ty.display, String.toList_append]
    exact (hmarked ih).append_mark (by decide)
  | array => simp [Ty.display, Front.bracket]
  | dictionary => simp [Ty.display, Front.bracket]
  | tuple => simp [Ty.display, Front.paren]
  | function => simp [Ty.display, Front.paren]

/-! ## Forms that were written -/

/-- With this fuel the notation of the type is read, up to where it stops. -/
def Ty.Reads (fuel : Nat) (ty : Ty) : Prop :=
  ∀ rest, Stops rest → typeAt fuel (ty.display.toList ++ rest) = .ok (ty, rest)

variable {ty key : Ty}

theorem Ty.Reads.before (h : ty.Reads fuel) (c : Char)
    (hc : c ∈ [']', ')', '>', ',', ':']) (rest : List Char) :
    typeAt fuel (ty.display.toList ++ c :: rest) = .ok (ty, c :: rest) :=
  h _ (stops_cons hc rest)

namespace TyParser

attribute [local simp] expect eat_nonblank isBlank bind Except.bind pure Except.pure marked Except.map

theorem bracketed_array (h : ty.Reads fuel) (rest) :
    bracketed (typeAt fuel) ('[' :: (ty.display.toList ++ ']' :: rest)) =
      .ok (.array ty, rest) := by
  simp [bracketed, h.before]

theorem bracketed_dictionary (hkey : key.Reads fuel) (hvalue : value.Reads fuel) (rest) :
    bracketed (typeAt fuel) ('[' :: (key.display.toList ++
        ':' :: ' ' :: (value.display.toList ++ ']' :: rest))) =
      .ok (.dictionary key value, rest) := by
  simp [bracketed, hkey.before, hvalue.before, typeAt_space]

theorem listUntil_space (hspace : ∀ cs, item (' ' :: cs) = item cs) (fuel : Nat) (cs) :
    listUntil close item fuel (' ' :: cs) = listUntil close item fuel cs := by
  cases fuel with
  | zero => rfl
  | succ fuel => rw [listUntil, listUntil, hspace]

/-- The notation of some types with commas between them, up to a closing mark. -/
theorem listUntil_displayAll (hclose : close.toList = [mark]) (hblank : isBlank mark = false)
    (hcomma : mark ≠ ',')
    (hspace : ∀ cs, item (' ' :: cs) = item cs) (hitem : ∀ ty ∈ types, ∀ c rest, c ∈ [mark, ','] →
      item (ty.display.toList ++ c :: rest) = .ok (ty, c :: rest)) (hne : types ≠ [])
    (hfuel : types.length ≤ fuel) (rest) :
    listUntil close item fuel ((Ty.displayAll types).toList ++ mark :: rest) =
      .ok (types, rest) := by
  induction types generalizing fuel with
  | nil => exact absurd rfl hne
  | cons ty more ih =>
    obtain ⟨fuel, rfl⟩ : ∃ less, fuel = less + 1 := ⟨fuel - 1, by simp at hfuel; omega⟩
    have hfirst := hitem ty (by simp)
    cases more with
    | nil => simp [toList_displayAll_singleton, listUntil, hfirst, hclose, eat_nonblank hblank]
    | cons next more =>
      have hmore := ih (fun ty hty => hitem ty (by simp [hty])) (by simp)
        (Nat.le_of_succ_le_succ hfuel)
      simp [toList_displayAll_cons_cons, listUntil, hfirst, hclose, hcomma,
        listUntil_space hspace, hmore]

theorem parenthesized_displayAll (hreadable : ∀ ty ∈ types, ty.Readable)
    (hreads : ∀ ty ∈ types, ty.Reads fuel) (hfuel : types.length ≤ fuel) (rest) :
    parenthesized (typeAt fuel) fuel ('(' :: ((Ty.displayAll types).toList ++ ')' :: rest)) =
      afterElements (typeAt fuel) types rest := by
  cases types with
  | nil => rfl
  | cons first more =>
    have hfront : eat ")" ((Ty.displayAll (first :: more)).toList ++ ')' :: rest) = none := by
      rw [Ty.displayAll, String.toList_append, List.append_assoc]
      exact (hreadable first (by simp)).front.eat_paren_eq_none _
    have hlist : listUntil ")" (typeAt fuel ∘ skipLabel) fuel
        ((Ty.displayAll (first :: more)).toList ++ ')' :: rest) = .ok (first :: more, rest) := by
      refine listUntil_displayAll rfl rfl (by decide) (typeAt_skipLabel_space fuel) ?_
        (by simp) hfuel rest
      intro ty hty c after hc
      rw [Function.comp_apply, (hreadable ty hty).front.skipLabel_eq hc]
      exact (hreads ty hty).before c (by grind) after
    have hopen (cs : List Char) : expect "(" ('(' :: cs) = .ok cs := rfl
    simp only [parenthesized, hopen, hfront, hlist, bind, Except.bind]
    rfl

/-- Elements without an arrow after them. -/
theorem afterElements_of_stopsOrMarks {inner : Reader} (h : StopsOrMarks rest) :
    afterElements inner types rest =
      match types with
      | [single] => .ok (single, rest)
      | _ => .ok (.tuple types, rest) := by
  have harrow : eat "->" rest = none :=
    h.eat_eq_none (show "->".toList = ['-', '>'] from rfl) (by decide)
  simp only [afterElements, h.eatKeyword_eq_none, Option.or_none, Option.getD_none, harrow]
  rfl

theorem afterElements_arrow (hresult : result.Reads fuel) (throws : Bool) (hrest : Stops rest) :
    afterElements (typeAt fuel) types ((if throws then " throws" else "").toList ++
        ' ' :: '-' :: '>' :: ' ' :: (result.display.toList ++ rest)) =
      .ok (.function types result throws, rest) := by
  let tail := ' ' :: '-' :: '>' :: ' ' :: (result.display.toList ++ rest)
  have harrow : eat "->" tail = some (' ' :: (result.display.toList ++ rest)) := rfl
  have hthrows : eatKeyword "throws" (" throws".toList ++ tail) = some tail := by
    rfl
  cases throws with
  | false =>
    have hkeyword (word : String) : eatKeyword word tail = none := rfl
    change afterElements (typeAt fuel) types tail = _
    simp [afterElements, hkeyword, harrow, typeAt_space, hresult rest hrest]
  | true =>
    change afterElements (typeAt fuel) types (" throws".toList ++ tail) = _
    simp only [afterElements, hthrows]
    simp [harrow, typeAt_space, hresult rest hrest]

/-- A dotted name and the generic arguments after it, if there are any. -/
theorem typeAt_display_named (hname : IsTypeName name) (hreads : ∀ ty ∈ generics, ty.Reads fuel)
    (hfuel : generics.length ≤ fuel) (hrest : StopsOrMarks rest) :
    typeAt (fuel + 1) ((Ty.named name generics).display.toList ++ rest) =
      .ok (marks (ofName name generics) rest) := by
  obtain ⟨first, parts, rfl, hfirst, hinout, howned, hparts⟩ := hname
  have hdotted (tail : List Char) (htail : ∀ c ∈ tail.head?, isNameChar c = false ∧ c ≠ '.') :
      ∃ after, identifier ((dotted first parts).toList ++ tail) = some (first, after) ∧
        dottedRest first after = .ok (dotted first parts, tail) ∧
        typeAt (fuel + 1) ((dotted first parts).toList ++ tail) =
          marked (namedType (typeAt fuel) fuel ((dotted first parts).toList ++ tail)) := by
    have hname := head?_parts (P := fun c => isNameChar c = false) rfl
      (fun c hc => (htail c hc).1) parts
    rw [toList_dotted, List.append_assoc]
    exact ⟨_, hfirst.identifier_append hname, dottedRest_dotted hparts htail first,
      typeAt_name hfirst hinout howned hname fuel⟩
  by_cases hne : generics = []
  · subst hne
    obtain ⟨after, hidentifier, hafter, htype⟩ := hdotted rest fun c hc => by
      refine ⟨hrest.isNameChar_eq_false c hc, ?_⟩
      rintro rfl
      exact absurd (hrest _ hc) (by decide)
    have hopen : eat "<" rest = none :=
      hrest.eat_eq_none (show "<".toList = ['<'] from rfl) (by decide)
    rw [Ty.display, htype]
    simp [namedType, hidentifier, hafter, hopen]
  · obtain ⟨after, hidentifier, hafter, htype⟩ := hdotted
      ('<' :: ((Ty.displayAll generics).toList ++ '>' :: rest)) (by rintro _ ⟨⟩; decide)
    have hlist : listUntil ">" (typeAt fuel) fuel
        ((Ty.displayAll generics).toList ++ '>' :: rest) = .ok (generics, rest) :=
      listUntil_displayAll rfl rfl (by decide) (typeAt_space fuel)
        (fun ty hty c after hc => (hreads ty hty).before c (by grind) after) hne hfuel rest
    rw [toList_display_named _ hne, List.append_assoc, List.cons_append, List.append_assoc,
      List.singleton_append, htype]
    simp [namedType, hidentifier, hafter, hlist]

end TyParser

/-! ## The round trip -/

theorem length_display_le (h : ty ∈ types) :
    ty.display.toList.length ≤ (Ty.displayAll types).toList.length := by
  induction types with
  | nil => cases h
  | cons first rest ih =>
    cases rest with
    | nil =>
      obtain rfl := List.mem_singleton.1 h
      exact Nat.le_of_eq (by rw [toList_displayAll_singleton])
    | cons next rest =>
      rw [toList_displayAll_cons_cons, List.length_append, List.length_cons, List.length_cons]
      rcases List.mem_cons.1 h with rfl | h
      · omega
      · have := ih h
        omega

theorem length_le_displayAll (h : ∀ ty ∈ types, ty.Readable) :
    types.length ≤ (Ty.displayAll types).toList.length := by
  induction types with
  | nil => simp
  | cons first rest ih =>
    have hfirst : 0 < first.display.toList.length :=
      List.length_pos_iff.2 (h first (by simp)).front.ne_nil
    cases rest with
    | nil =>
      rw [toList_displayAll_singleton]
      exact hfirst
    | cons next rest =>
      have hrest := ih fun ty hty => h ty (by simp [hty])
      rw [toList_displayAll_cons_cons]
      simp only [List.length_cons, List.length_append] at hrest ⊢
      omega

/-- With enough fuel the notation of the type is read, with the marks that follow. The result of a
function would take them for its own. -/
def Ty.ReadsMarked (ty : Ty) : Prop :=
  ∀ fuel rest, ty.display.toList.length ≤ fuel → StopsOrMarks rest →
    (∀ params result throws, ty = .function params result throws → Stops rest) →
      typeAt (fuel + 1) (ty.display.toList ++ rest) = .ok (marks ty rest)

theorem Ty.ReadsMarked.reads (h : ty.ReadsMarked) (hfuel : ty.display.toList.length < fuel) :
    ty.Reads fuel := by
  intro rest hrest
  obtain ⟨fuel, rfl⟩ : ∃ less, fuel = less + 1 := ⟨fuel - 1, by omega⟩
  rw [h fuel rest (by omega) hrest.orMarks fun _ _ _ _ => hrest, marks_of_stops hrest]

theorem reads_of_mem (h : ∀ ty ∈ types, ty.ReadsMarked)
    (hfuel : (Ty.displayAll types).toList.length < fuel) : ∀ ty ∈ types, ty.Reads fuel :=
  fun ty hty => (h ty hty).reads (Nat.lt_of_le_of_lt (length_display_le hty) hfuel)

/-- A type before a mark. A function type is in parentheses there. -/
theorem Ty.ReadsMarked.before_mark (h : wrapped.ReadsMarked) (hreadable : wrapped.Readable)
    (hfuel : (wrapped.markable wrapped.display).toList.length ≤ fuel) (hrest : StopsOrMarks rest) :
    typeAt (fuel + 1) ((wrapped.markable wrapped.display).toList ++ rest) =
      .ok (marks wrapped rest) := by
  cases wrapped with
  | function params result throws =>
    rw [toList_markable_function] at hfuel ⊢
    simp only [List.length_cons, List.length_append] at hfuel
    have hreads : (Ty.function params result throws).Reads fuel := h.reads (by omega)
    have hparen := parenthesized_displayAll (by simpa using hreadable) (by simpa using hreads)
      (show [Ty.function params result throws].length ≤ fuel by rw [List.length_singleton]; omega)
      rest
    rw [toList_displayAll_singleton] at hparen
    rw [List.cons_append, List.append_assoc, List.singleton_append, typeAt_paren, hparen,
      afterElements_of_stopsOrMarks hrest]
    rfl
  | _ => exact h fuel rest hfuel hrest (by simp)

/-- Every type that the reader gives is read again from its notation. -/
theorem Ty.Readable.readsMarked (h : ty.Readable) : ty.ReadsMarked := by
  induction h with
  | @named name generics hname hplain hgenerics ih =>
    intro fuel rest hfuel hrest _
    have hcount := length_le_displayAll hgenerics
    have hle : (Ty.displayAll generics).toList.length ≤ fuel ∧
        (generics ≠ [] → (Ty.displayAll generics).toList.length < fuel) := by
      by_cases hne : generics = []
      · subst hne
        exact ⟨Nat.zero_le fuel, fun hne => absurd rfl hne⟩
      · rw [toList_display_named _ hne] at hfuel
        simp only [List.length_cons, List.length_append] at hfuel
        exact ⟨by omega, fun _ => by omega⟩
    have hreads : ∀ ty ∈ generics, ty.Reads fuel := fun ty hty =>
      reads_of_mem ih (hle.2 (List.ne_nil_of_mem hty)) ty hty
    rw [typeAt_display_named hname hreads (by omega) hrest, hplain]
  | optional h ih =>
    intro fuel rest hfuel hrest _
    simp only [Ty.display, String.toList_append, List.length_append, List.append_assoc] at hfuel ⊢
    exact (ih.before_mark h (by omega) (stopsOrMarks_cons (show '?' ∈ _ by decide) rest)).trans
      (by rw [marks_question])
  | implicitlyUnwrapped h ih =>
    intro fuel rest hfuel hrest _
    simp only [Ty.display, String.toList_append, List.length_append, List.append_assoc] at hfuel ⊢
    exact (ih.before_mark h (by omega) (stopsOrMarks_cons (show '!' ∈ _ by decide) rest)).trans
      (by rw [marks_bang])
  | array h ih =>
    intro fuel rest hfuel _ _
    simp [Ty.display] at hfuel ⊢
    rw [typeAt_bracket, bracketed_array (ih.reads (by omega))]
    rfl
  | dictionary hkey hvalue ihkey ihvalue =>
    intro fuel rest hfuel _ _
    simp [Ty.display] at hfuel ⊢
    rw [typeAt_bracket, bracketed_dictionary (ihkey.reads (by omega)) (ihvalue.reads (by omega))]
    rfl
  | @tuple elements hlength helements ih =>
    intro fuel rest hfuel hrest _
    have hcount := length_le_displayAll helements
    simp [Ty.display] at hfuel ⊢
    rw [typeAt_paren, parenthesized_displayAll helements (reads_of_mem ih (by omega)) (by omega),
      afterElements_of_stopsOrMarks hrest]
    split
    · exact absurd rfl hlength
    · rfl
  | @function params result throws hparams hresult ihparams ihresult =>
    intro fuel rest hfuel hrest hfunction
    have hstops : Stops rest := hfunction _ _ _ rfl
    have hcount := length_le_displayAll hparams
    simp [Ty.display] at hfuel ⊢
    rw [typeAt_paren,
      parenthesized_displayAll hparams (reads_of_mem ihparams (by omega)) (by omega),
      afterElements_arrow (ihresult.reads (by omega)) throws hstops, marks_of_stops hstops]
    simp [marked, Except.map, marks_of_stops hstops]

/-! ## Reading again -/

/-- A readable type is read from its notation. -/
theorem Ty.Readable.parse_display (h : ty.Readable) : Ty.parse ty.display = .ok ty := by
  have hstops : Stops [] := by
    rintro c hc
    cases hc
  have hread := h.readsMarked.reads (Nat.lt_succ_self _) [] hstops
  rw [List.append_nil] at hread
  unfold Ty.parse parseChars
  rw [hread]
  rfl

/-- Writing a type that was read and reading it again gives the same type. The types that are read
are exactly the readable ones, whatever their nesting. -/
theorem Ty.parse_display_of_parse (ty : Ty) :
    (∀ text, Ty.parse text = .ok ty → Ty.parse ty.display = .ok ty) ∧
      ((∃ text, Ty.parse text = .ok ty) ↔ ty.Readable) :=
  ⟨fun _ h => (Ty.readable_of_parse h).parse_display,
    fun ⟨_, h⟩ => Ty.readable_of_parse h, fun h => ⟨ty.display, h.parse_display⟩⟩

/-- Labels, attributes and the long names of optionals and arrays are gone from the notation. -/
theorem Ty.reread_nested_notation :
    ∃ ty,
      Ty.parse "(@escaping (_ key: inout S.Key, Optional<Int>) throws -> ((Array<A.B<()>>)))?" =
        .ok ty ∧
      ty.display = "((S.Key, Int?) throws -> [A.B<()>])?" ∧
      Ty.parse "((S.Key, Int?) throws -> [A.B<()>])?" = .ok ty := by
  have hnotation : ((Ty.parse
      "(@escaping (_ key: inout S.Key, Optional<Int>) throws -> ((Array<A.B<()>>)))?").toOption.map
        Ty.display) = some "((S.Key, Int?) throws -> [A.B<()>])?" := by
    decide +kernel
  cases h : Ty.parse
      "(@escaping (_ key: inout S.Key, Optional<Int>) throws -> ((Array<A.B<()>>)))?" with
  | error fault =>
    rw [h] at hnotation
    cases hnotation
  | ok ty =>
    rw [h] at hnotation
    have hdisplay : ty.display = "((S.Key, Int?) throws -> [A.B<()>])?" := Option.some.inj hnotation
    exact ⟨ty, rfl, hdisplay, hdisplay ▸ (Ty.parse_display_of_parse ty).1 _ h⟩

end SwiftToKotlin.Swift
