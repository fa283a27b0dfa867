import SwiftToKotlin.Proofs.Kotlin.Grammar.Expression

/-!
# Texts that spell a tree on a level

A text spells a tree on a level of the grammar if it is read as that tree wherever no operator
follows that binds tighter than the level. Each way to write an expression keeps this: parentheses
lift a text to the level of the suffixes, an operator takes texts of its own level and of the one
above it.
-/

namespace SwiftToKotlin.Kotlin.Grammar

/-! ## What may follow -/

/-- No operator follows that binds tighter than the level. -/
def Stops (level : Nat) (tokens : List Token) : Prop :=
  ∀ l, tokens.head?.bind Token.level? = some l → l ≤ level

theorem Stops.mono (hlm : l ≤ m) (h : Stops l tokens) : Stops m tokens :=
  fun k hk => Nat.le_trans (h k hk) hlm

theorem Stops.ne (hlm : l < m) (h : Stops l tokens) : tokens.head?.bind Token.level? ≠ some m :=
  fun heq => absurd (h m heq) (Nat.not_le.2 hlm)

theorem stops_of_level? (hlm : l ≤ m) (h : token.level? = some l) (tokens) :
    Stops m (token :: tokens) := by
  intro k hk
  obtain rfl := Option.some.inj (h.symm.trans hk)
  exact hlm

theorem stops_of_level?_eq_none (h : token.level? = none) (l : Nat) (tokens) :
    Stops l (token :: tokens) := by
  intro k hk
  cases h.symm.trans hk

theorem levelOf_le (h : levelOf symbol = some l) : 0 < l ∧ l ≤ ladder.length := by
  obtain ⟨i, hi, rfl⟩ := Option.map_eq_some_iff.1 h
  have := (List.findIdx?_eq_some_iff_getElem.1 hi).1
  omega

/-- Operators stand on the rows of the ladder, and suffixes on the last level. -/
theorem Token.level?_cases {token : Token} (h : token.level? = some l) :
    0 < l ∧ l ≤ ladder.length ∨ l = suffixLevel := by
  cases token with
  | word name => exact .inl (levelOf_le h)
  | operator symbol => exact .inl (levelOf_le h)
  | cast kind ty => exact .inl (levelOf_le h)
  | mark mark =>
    cases mark with
    | openParen | openBracket | dot | safeDot | notNull => exact .inr (Option.some.inj h).symm
    | _ => cases h
  | _ => cases h

theorem stops_suffixLevel (tokens) : Stops suffixLevel tokens := by
  intro l h
  obtain ⟨token, -, htoken⟩ := Option.bind_eq_some_iff.1 h
  rcases Token.level?_cases htoken with h | h
  · exact Nat.le_trans h.2 (by decide)
  · exact Nat.le_of_eq h

/-- There is no operator on the level of whole expressions and none on that of the signs. -/
theorem level?_ne (hl : l = 0 ∨ l = signLevel) (tokens : List Token) :
    tokens.head?.bind Token.level? ≠ some l := by
  intro h
  obtain ⟨token, -, htoken⟩ := Option.bind_eq_some_iff.1 h
  have hladder : ladder.length < signLevel ∧ signLevel < suffixLevel := by decide
  rcases Token.level?_cases htoken with h | h <;> omega

theorem Reads.eq_of_chain_signLevel (h : Reads (.chain signLevel node) tokens result rest) :
    result = node ∧ rest = tokens := by
  have hne := level?_ne (.inr rfl) tokens
  cases h with
  | stop => exact ⟨rfl, rfl⟩
  | operator _ hlevel => exact absurd hlevel hne
  | cast hlevel => exact absurd hlevel hne

/-- An expression of a level is one of each level below it if no operator follows. -/
theorem Reads.descend (hlm : l < m) (hm : m ≤ suffixLevel) (hstops : Stops l more)
    (h : Reads (.level m) tokens node more) :
    Reads (.level (l + 1)) tokens node more := by
  obtain ⟨k, rfl⟩ := Nat.exists_eq_add_of_lt hlm
  induction k with
  | zero => exact h
  | succ k ih =>
    have hbelow : Reads (.level (l + k + 1)) tokens node more :=
      .level (by omega) h (.stop (hstops.ne (by omega)))
    exact ih (by omega) (by omega) hbelow

/-- The text ends one of the level: the last word of it, and the type of a cast at its end. -/
def Ends (level : Nat) (rest : List Char) : Prop :=
  EndsWord rest ∧ (level < suffixLevel → EndsType rest)

theorem Ends.mono (hlm : l ≤ m) (h : Ends l rest) : Ends m rest :=
  ⟨h.1, fun hm => h.2 (Nat.lt_of_le_of_lt hlm hm)⟩

theorem EndsWord.cons (h : Text.isNameChar c = false ∧ c ≠ '.') (rest) :
    EndsWord (c :: rest) := by
  refine ⟨fun d hd => ?_, fun d more heq => ?_⟩
  · cases hd
    exact h.1
  · cases heq
    exact absurd rfl h.2

theorem Ends.cons (h : (isTypeNameChar c = false ∧ c ≠ '<') ∧ c ≠ '?') (l : Nat) (rest) :
    Ends l (c :: rest) := by
  have hchar : Text.isNameChar c = false ∧ c ≠ '.' := by
    have hname := h.1.1
    simp only [isTypeNameChar, Bool.or_eq_false_iff, beq_eq_false_iff_ne] at hname
    exact hname.1
  exact ⟨.cons hchar rest, fun _ => .cons h rest⟩

/-! ## Spelling -/

/-- The text is one of the level and is read as the node. On the level of the suffixes its first
character does not go on with a sign before it. -/
structure Spelling (level : Nat) (text : List Char) (tokens : List Token) (node : Node) : Prop where
  lexes {rest : List Char} {more : List Token} :
    Ends level rest → Lexes rest more → Lexes (text ++ rest) (tokens ++ more)
  reads {more rest : List Token} {result : Node} :
    Stops level more → Reads (.chain level node) more result rest →
      Reads (.level level) (tokens ++ more) result rest
  head : level = suffixLevel → ∃ c cs, text = c :: cs ∧ c ≠ '=' ∧ c ≠ '!'

/-- The fragment is a single line that spells the node on the level. -/
def Spells (level : Nat) (fragment : Fragment) (node : Node) : Prop :=
  ∃ text tokens, fragment = .ofString text ∧ Spelling level text.toList tokens node

theorem Spelling.lower (hl : l < suffixLevel) (h : Spelling (l + 1) text tokens node) :
    Spelling l text tokens node where
  lexes hends hrest := h.lexes (hends.mono l.le_succ) hrest
  reads hstops hchain :=
    .level hl (h.reads (hstops.mono l.le_succ) (.stop (hstops.ne l.lt_succ_self))) hchain
  head heq := absurd heq (Nat.ne_of_lt hl)

theorem Spells.mono (hlm : l ≤ m) (hm : m ≤ suffixLevel) (h : Spells m fragment node) :
    Spells l fragment node := by
  obtain ⟨text, tokens, hfragment, h⟩ := h
  refine ⟨text, tokens, hfragment, ?_⟩
  induction hlm with
  | refl => exact h
  | step hlm ih => exact ih (by omega) (h.lower (by omega))

/-- A whole expression, where the grammar asks for one. -/
theorem Spelling.reads_whole (h : Spelling 0 text tokens node) (hstops : Stops 0 more) :
    Reads (.level 0) (tokens ++ more) node more :=
  h.reads hstops (.stop (level?_ne (.inl rfl) more))

theorem Spells.parenthesized (h : Spells 0 fragment node) :
    Spells suffixLevel ("(" ++ fragment ++ ")") node := by
  obtain ⟨text, tokens, rfl, h⟩ := h
  refine ⟨"(" ++ text ++ ")", .mark .openParen :: tokens ++ [.mark .closeParen], rfl, ?_, ?_, ?_⟩
  · intro rest more _ hrest
    have hinside := h.lexes (.cons (by decide) 0 rest) hrest.closeParen
    simpa using hinside.openParen
  · intro more rest result _ hchain
    have hstops : Stops 0 (.mark .closeParen :: more) := stops_of_level?_eq_none rfl 0 more
    simpa using Reads.suffixed (.parenthesized (h.reads_whole hstops)) hchain
  · intro _
    exact ⟨'(', text.toList ++ [')'], by simp, by decide, by decide⟩

/-- A token that is an operand by itself. -/
theorem spells_token
    (hnext : ∀ rest, EndsWord rest → nextToken? (text.toList ++ rest) = some (token, rest))
    (hreads : ∀ rest, Reads .primary (token :: rest) node rest)
    (hhead : ∃ c cs, text.toList = c :: cs ∧ c ≠ '=' ∧ c ≠ '!') :
    Spells suffixLevel (.ofString text) node := by
  refine ⟨text, [token], rfl, ?_, ?_, fun _ => hhead⟩
  · intro rest more hends hrest
    exact .token (hnext rest hends.1) hrest
  · intro more rest result _ hchain
    exact .suffixed (hreads more) hchain

/-! ## Operators -/

theorem operatorToken_binaryOp? (op) : (operatorToken op).binaryOp? = some op := by
  cases op <;> rfl

theorem operatorToken_level? (op) : (operatorToken op).level? = some op.precedence := by
  cases op <;> rfl

theorem precedence_lt_suffixLevel (op : BinaryOp) : op.precedence < suffixLevel := by
  cases op <;> decide

theorem Spells.binary (op : BinaryOp) (hl : Spells op.precedence left lhs)
    (hr : Spells (op.precedence + 1) right rhs) :
    Spells op.precedence (left ++ s!" {op.symbol} " ++ right) ⟨.binary op lhs rhs, none⟩ := by
  obtain ⟨ltext, ltokens, rfl, hl⟩ := hl
  obtain ⟨rtext, rtokens, rfl, hr⟩ := hr
  refine ⟨ltext ++ (" " ++ op.symbol ++ " ") ++ rtext, ltokens ++ operatorToken op :: rtokens, rfl,
    ?_, ?_, ?_⟩
  · intro rest more hends hrest
    have hright := hr.lexes (hends.mono (Nat.le_succ _)) hrest
    have hop : Lexes (' ' :: (op.symbol.toList ++ ' ' :: (rtext.toList ++ rest)))
        (operatorToken op :: (rtokens ++ more)) :=
      .blank (.token (nextToken?_binary op _) (.blank hright))
    simpa using hl.lexes (.cons (by decide) _ _) hop
  · intro more rest result hstops hchain
    -- the right operand ends before the next operator of the level, so the chain goes on with it
    have hright : Reads (.level (op.precedence + 1)) (rtokens ++ more) rhs more :=
      hr.reads (hstops.mono (Nat.le_succ _)) (.stop (hstops.ne (Nat.lt_succ_self _)))
    have hop :
        Reads (.chain op.precedence lhs) (operatorToken op :: (rtokens ++ more)) result rest :=
      .operator (operatorToken_binaryOp? op) (operatorToken_level? op) hright hchain
    simpa using hl.reads (stops_of_level? (Nat.le_refl _) (operatorToken_level? op) _) hop
  · exact fun heq => absurd heq (Nat.ne_of_lt (precedence_lt_suffixLevel op))

theorem Spells.unary (op : UnaryOp) (h : Spells suffixLevel fragment operand) :
    Spells signLevel (op.symbol ++ fragment) ⟨.unary op operand, none⟩ := by
  obtain ⟨text, tokens, rfl, h⟩ := h
  refine ⟨op.symbol ++ text, .operator op.symbol :: tokens, rfl, ?_, ?_, ?_⟩
  · intro rest more hends hrest
    -- the operand must not turn `!` into `!=` or `!!`
    obtain ⟨c, cs, htext, hequals, hnot⟩ := h.head rfl
    have hoperand := h.lexes (hends.mono (by decide)) hrest
    rw [String.toList_append, List.append_assoc]
    rw [htext] at hoperand ⊢
    exact .token (nextToken?_unary op hequals hnot _) hoperand
  · intro more rest result hstops hchain
    obtain ⟨rfl, rfl⟩ := hchain.eq_of_chain_signLevel
    have hsigned : Spelling signLevel text.toList tokens operand := h.lower (by decide)
    have hoperand := hsigned.reads hstops (.stop (level?_ne (.inr rfl) rest))
    exact .sign (by cases op <;> rfl) hoperand
  · exact fun heq => absurd heq (by decide)

theorem castToken_level? (kind) (ty : Ty) :
    (Token.cast kind ty).level? = some kind.precedence := by
  cases kind <;> rfl

theorem Spells.cast (kind) (h : Spells kind.precedence fragment value) (hty : IsReadable ty) :
    Spells kind.precedence (fragment ++ s!" {kind.keyword} {ty.display}")
      ⟨.cast kind value ty, none⟩ := by
  have hlevel : kind.precedence < suffixLevel := by cases kind <;> decide
  obtain ⟨text, tokens, rfl, h⟩ := h
  refine ⟨text ++ (" " ++ kind.keyword ++ " " ++ ty.display), tokens ++ [.cast kind ty], rfl,
    ?_, ?_, ?_⟩
  · intro rest more hends hrest
    have hcast : Lexes (' ' :: (kind.keyword.toList ++ ' ' :: (ty.display.toList ++ rest)))
        (.cast kind ty :: more) :=
      .blank (.token (nextToken?_cast kind hty (hends.2 hlevel)) hrest)
    simpa using h.lexes (.cons (by decide) _ _) hcast
  · intro more rest result _ hchain
    have hstops := stops_of_level? (Nat.le_refl _) (castToken_level? kind ty) more
    simpa using h.reads hstops (.cast (castToken_level? kind ty) hchain)
  · exact fun heq => absurd heq (Nat.ne_of_lt hlevel)

/-! ## Suffixes -/

theorem Spells.suffix (h : Spells suffixLevel fragment base) (text : String) (tokens)
    (hends : ∀ rest, EndsWord (text.toList ++ rest))
    (hlexes : ∀ {rest more}, EndsWord rest → Lexes rest more →
      Lexes (text.toList ++ rest) (tokens ++ more))
    (hreads : ∀ {more result rest}, Reads (.chain suffixLevel node) more result rest →
      Reads (.chain suffixLevel base) (tokens ++ more) result rest) :
    Spells suffixLevel (fragment ++ text) node := by
  obtain ⟨btext, btokens, rfl, h⟩ := h
  refine ⟨btext ++ text, btokens ++ tokens, rfl, ?_, ?_, ?_⟩
  · intro rest more hrestEnds hrest
    simpa using h.lexes ⟨hends rest, fun hlt => absurd hlt (Nat.lt_irrefl _)⟩
      (hlexes hrestEnds.1 hrest)
  · intro more rest result _ hchain
    simpa using h.reads (stops_suffixLevel _) (hreads hchain)
  · intro heq
    obtain ⟨c, cs, htext, hc⟩ := h.head heq
    exact ⟨c, cs ++ text.toList, by simp [htext], hc⟩

theorem Spells.notNull (h : Spells suffixLevel fragment base) :
    Spells suffixLevel (fragment ++ "!!") ⟨.notNullAssert base, none⟩ :=
  h.suffix "!!" [.mark .notNull] (fun _ => .cons (by decide) _)
    (fun _ hrest => hrest.notNull) .notNull

theorem Spells.append_append (h : Spells l fragment node) (first next : String) :
    fragment ++ Fragment.ofString first ++ Fragment.ofString next =
      fragment ++ Fragment.ofString (first ++ next) := by
  obtain ⟨text, -, rfl, -⟩ := h
  exact congrArg Fragment.ofString String.append_assoc

theorem Spells.member (h : Spells suffixLevel fragment base) (hname : IsName name) (safe : Bool) :
    Spells suffixLevel (fragment ++ (if safe then "?." else ".") ++ name)
      ⟨.member base name safe, none⟩ := by
  obtain ⟨c, cs, htext, hdigit, hc⟩ := hname.exists_cons
  have hlexes {rest : List Char} {more : List Token} (hends : EndsWord rest)
      (hrest : Lexes rest more) : Lexes (c :: (cs ++ rest)) (.word name :: more) := by
    have hnext := nextToken?_name hname hends.1
    rw [htext] at hnext
    exact .token hnext hrest
  rw [h.append_append]
  cases safe with
  | true =>
    have hchars (rest : List Char) :
        ("?." ++ name).toList ++ rest = '?' :: '.' :: c :: (cs ++ rest) := by
      simp [htext]
    refine h.suffix ("?." ++ name) [.mark .safeDot, .word name] ?_ ?_ .safeMember
    · intro rest
      rw [hchars]
      exact .cons (by decide) _
    · intro rest more hends hrest
      rw [hchars]
      exact (hlexes hends hrest).safeDot
  | false =>
    have hchars (rest : List Char) : ("." ++ name).toList ++ rest = '.' :: c :: (cs ++ rest) := by
      simp [htext]
    refine h.suffix ("." ++ name) [.mark .dot, .word name] ?_ ?_ .member
    · intro rest
      rw [hchars]
      refine ⟨?_, ?_⟩
      · intro d hd
        cases hd
        decide
      · intro d more heq
        cases heq
        exact hdigit
    · intro rest more hends hrest
      rw [hchars]
      exact .token (nextToken?_dot (by grind) _) (hlexes hends hrest)

theorem Spells.index (h : Spells suffixLevel fragment base) (hposition : Spells 0 inside position) :
    Spells suffixLevel (fragment ++ "[" ++ inside ++ "]") ⟨.index base position, none⟩ := by
  obtain ⟨text, tokens, rfl, hposition⟩ := hposition
  rw [h.append_append, h.append_append]
  refine h.suffix ("[" ++ text ++ "]") (.mark .openBracket :: tokens ++ [.mark .closeBracket])
    ?_ ?_ ?_
  · intro rest
    simpa using EndsWord.cons (c := '[') (by decide) (text.toList ++ ']' :: rest)
  · intro rest more hends hrest
    have hinside := hposition.lexes (.cons (by decide) 0 rest) hrest.closeBracket
    simpa using hinside.openBracket
  · intro more result rest hchain
    have hstops : Stops 0 (.mark .closeBracket :: more) := stops_of_level?_eq_none rfl 0 more
    simpa using Reads.index (hposition.reads_whole hstops) hchain

/-! ## Conditional expressions -/

theorem Spells.conditional (hc : Spells 0 first condition) (ht : Spells 0 second thenValue)
    (he : Spells 0 third elseValue) :
    Spells 0 ("if (" ++ first ++ ") " ++ second ++ " else " ++ third)
      ⟨.ifExpr condition thenValue elseValue, none⟩ := by
  obtain ⟨ctext, ctokens, rfl, hc⟩ := hc
  obtain ⟨ttext, ttokens, rfl, ht⟩ := ht
  obtain ⟨etext, etokens, rfl, he⟩ := he
  refine ⟨"if (" ++ ctext ++ ") " ++ ttext ++ " else " ++ etext,
    .ifWord :: .mark .openParen :: ctokens ++ .mark .closeParen :: ttokens ++ .elseWord :: etokens,
    rfl, ?_, ?_, ?_⟩
  · intro rest more hends hrest
    have helse := (he.lexes hends hrest).elseWord
    have hthen := ht.lexes (.cons (by decide) 0 _) helse
    have hcondition := hc.lexes (.cons (by decide) 0 _) (Lexes.blank hthen).closeParen
    simpa using hcondition.openParen.ifWord
  · intro more rest result hstops hchain
    have hclose (tokens : List Token) : Stops 0 (.mark .closeParen :: tokens) :=
      stops_of_level?_eq_none rfl 0 tokens
    have helse (tokens : List Token) : Stops 0 (.elseWord :: tokens) :=
      stops_of_level?_eq_none rfl 0 tokens
    have hwhole := Reads.conditional (hc.reads_whole (hclose _)) (ht.reads_whole (helse _))
      (he.reads_whole hstops)
    have hsuffixed := Reads.suffixed hwhole (.stop (hstops.ne (by decide)))
    have hlowest := Reads.descend (by decide) (Nat.le_refl _) hstops hsuffixed
    simpa using Reads.level (by decide) hlowest hchain
  · exact fun heq => absurd heq (by decide)

/-! ## Arguments -/

/-- A word that is not followed by an operator is a whole expression. -/
theorem reads_word (name : String) (hstops : Stops 0 tokens) :
    Reads (.level 0) (.word name :: tokens) ⟨.reference name, none⟩ tokens :=
  .level (by decide)
    (.descend (by decide) (Nat.le_refl _) hstops (.suffixed .word (.stop (hstops.ne (by decide)))))
    (.stop (level?_ne (.inl rfl) tokens))

/-- A value that is read as such is not taken for a named one. -/
theorem splitName_of_reads (h : Reads (.level 0) tokens value more)
    (hmore : more.head? ≠ some (.mark .equals)) :
    splitName tokens = (none, tokens) := by
  unfold splitName
  split
  next name tokens =>
    have hstops : Stops 0 (.mark .equals :: tokens) := stops_of_level?_eq_none rfl 0 tokens
    obtain ⟨-, rfl⟩ := h.unique (reads_word name hstops)
    exact absurd rfl hmore
  · rfl

/-- The text is an argument, as the last one or with others behind it. -/
structure ArgumentSpelling (text : List Char) (tokens : List Token) (argument : Argument Node) :
    Prop where
  lexes {rest : List Char} {more : List Token} :
    Ends 0 rest → Lexes rest more → Lexes (text ++ rest) (tokens ++ more)
  last (callee : Node) (args : List (Argument Node)) (rest : List Token) :
    Reads (.arguments callee args) (tokens ++ .mark .closeParen :: rest)
      ⟨.call callee (args ++ [argument]) none, none⟩ rest
  next {callee node : Node} {args : List (Argument Node)} {more rest : List Token} :
    Reads (.arguments callee (args ++ [argument])) more node rest →
      Reads (.arguments callee args) (tokens ++ .mark .comma :: more) node rest

def SpellsArgument (fragment : Fragment) (argument : Argument Node) : Prop :=
  ∃ text tokens, fragment = .ofString text ∧ ArgumentSpelling text.toList tokens argument

theorem Spelling.argumentSpelling (h : Spelling 0 valueText valueTokens value)
    (hlexes : ∀ {rest more}, Ends 0 rest → Lexes rest more → Lexes (text ++ rest) (tokens ++ more))
    (hsplit : ∀ {more}, Stops 0 more → more.head? ≠ some (.mark .equals) →
      splitName (tokens ++ more) = (name, valueTokens ++ more)) :
    ArgumentSpelling text tokens ⟨name, value⟩ := by
  refine ⟨hlexes, ?_, ?_⟩
  · intro callee args rest
    have hstops : Stops 0 (.mark .closeParen :: rest) := stops_of_level?_eq_none rfl 0 rest
    have hlast : Reads (.arguments callee args) (tokens ++ .mark .closeParen :: rest) _ rest :=
      .lastArgument (by rw [hsplit hstops (by simp)]; exact h.reads_whole hstops)
    rw [hsplit hstops (by simp)] at hlast
    exact hlast
  · intro callee node args more rest hmore
    have hstops : Stops 0 (.mark .comma :: more) := stops_of_level?_eq_none rfl 0 more
    refine .nextArgument (by rw [hsplit hstops (by simp)]; exact h.reads_whole hstops) ?_
    rw [hsplit hstops (by simp)]
    exact hmore

theorem Spells.argument (h : Spells 0 fragment value) : SpellsArgument fragment ⟨none, value⟩ := by
  obtain ⟨text, tokens, rfl, h⟩ := h
  refine ⟨text, tokens, rfl, h.argumentSpelling h.lexes fun hstops hmore => ?_⟩
  exact splitName_of_reads (h.reads_whole hstops) hmore

theorem Spells.namedArgument (hname : IsName name) (h : Spells 0 fragment value) :
    SpellsArgument (s!"{name} = " ++ fragment) ⟨some name, value⟩ := by
  obtain ⟨text, tokens, rfl, h⟩ := h
  refine ⟨name ++ " = " ++ text, .word name :: .mark .equals :: tokens, rfl,
    h.argumentSpelling ?_ fun _ _ => rfl⟩
  intro rest more hends hrest
  have hvalue := (h.lexes hends hrest).equals
  have hblank : EndsWord (' ' :: '=' :: ' ' :: (text.toList ++ rest)) := .cons (by decide) _
  simpa using Lexes.token (nextToken?_name hname hblank.1) hvalue

theorem Fragment.separated_cons_cons (separator : String) (first next : Fragment) (rest) :
    Fragment.separated separator (first :: next :: rest) =
      first ++ (.ofString separator ++ Fragment.separated separator (next :: rest)) := by
  have assoc (fragment : Fragment) : Fragment.ofString separator ++ next ++ fragment =
      .ofString separator ++ (next ++ fragment) := by
    obtain ⟨head, below⟩ := next
    cases below with
    | nil => exact congrArg (Fragment.mk · fragment.below) String.append_assoc
    | cons line below => rfl
  exact congrArg (first ++ ·) (assoc _)

section Arguments

variable {ι : Type} {argument : ι → Argument Node}

/-- Arguments with commas between them, up to the closing parenthesis. -/
theorem spells_arguments (first : ι) (items : List ι)
    (h : ∀ item ∈ first :: items, SpellsArgument (fragment item) (argument item)) :
    ∃ text tokens, Fragment.separated ", " ((first :: items).map fragment) = .ofString text ∧
      (∀ {rest more}, Lexes rest more →
        Lexes (text.toList ++ ')' :: rest) (tokens ++ .mark .closeParen :: more)) ∧
      ∀ callee args more, Reads (.arguments callee args) (tokens ++ .mark .closeParen :: more)
        ⟨.call callee (args ++ (first :: items).map argument) none, none⟩ more := by
  obtain ⟨text, tokens, hfragment, hfirst⟩ := h first List.mem_cons_self
  induction items generalizing first text tokens with
  | nil =>
    refine ⟨text, tokens, ?_, ?_, ?_⟩
    · rw [List.map_singleton, hfragment]
      exact congrArg Fragment.ofString String.append_empty
    · intro rest more hrest
      exact hfirst.lexes (.cons (by decide) 0 rest) hrest.closeParen
    · exact hfirst.last
  | cons next items ih =>
    have hitems : ∀ item ∈ next :: items, SpellsArgument (fragment item) (argument item) :=
      fun item hitem => h item (List.mem_cons_of_mem _ hitem)
    obtain ⟨nextText, nextTokens, hnextFragment, hnext⟩ := hitems next List.mem_cons_self
    obtain ⟨others, otherTokens, hothers, hlexes, hreads⟩ :=
      ih next hitems nextText nextTokens hnextFragment hnext
    refine ⟨text ++ (", " ++ others), tokens ++ .mark .comma :: otherTokens, ?_, ?_, ?_⟩
    · rw [List.map_cons, List.map_cons, Fragment.separated_cons_cons, ← List.map_cons, hothers,
        hfragment]
      rfl
    · intro rest more hrest
      have hcomma := (hlexes hrest).comma
      simpa using hfirst.lexes (.cons (by decide) 0 _) hcomma
    · intro callee args more
      have hmore := hfirst.next (hreads callee (args ++ [argument first]) more)
      simpa using hmore

theorem Spells.call (h : Spells suffixLevel callee base) (items : List ι)
    (hitems : ∀ item ∈ items, SpellsArgument (fragment item) (argument item)) :
    Spells suffixLevel (callee ++ ("(" ++ Fragment.separated ", " (items.map fragment) ++ ")"))
      ⟨.call base (items.map argument) none, none⟩ := by
  cases items with
  | nil =>
    refine h.suffix "()" [.mark .openParen, .mark .closeParen] ?_ ?_ ?_
    · exact fun _ => .cons (by decide) _
    · exact fun _ hrest => hrest.closeParen.openParen
    · exact fun hchain => .call .noArguments hchain
  | cons first items =>
    obtain ⟨text, tokens, hfragment, hlexes, hreads⟩ := spells_arguments first items hitems
    rw [hfragment]
    refine h.suffix ("(" ++ text ++ ")") (.mark .openParen :: tokens ++ [.mark .closeParen])
      ?_ ?_ ?_
    · intro rest
      simpa using EndsWord.cons (c := '(') (by decide) (text.toList ++ ')' :: rest)
    · intro rest more _ hrest
      simpa using (hlexes hrest).openParen
    · intro more result rest hchain
      simpa using Reads.call (hreads base [] more) hchain

end Arguments

end SwiftToKotlin.Kotlin.Grammar
