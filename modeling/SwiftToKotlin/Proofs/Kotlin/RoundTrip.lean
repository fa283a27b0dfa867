import SwiftToKotlin.Proofs.Kotlin.Grammar.Spelling

/-!
# Written expressions are read back

The parentheses in a written expression are enough: by the grammar of expressions its text is read
as the tree it was written for and as no other. Places in a source are not written, and a number is
known by its text alone, so trees are compared up to these.
-/

namespace SwiftToKotlin.Kotlin

open Grammar

/-! ## Folding layer by layer -/

section Map

variable {α β γ : Type} (f : α → β) (g : β → γ)

theorem Param.map_map (param : Param α) : (param.map f).map g = param.map (g ∘ f) := by
  simp [Param.map]

theorem WhenCondition.map_map (condition : WhenCondition α) :
    (condition.map f).map g = condition.map (g ∘ f) := by
  cases condition <;> rfl

theorem TemplatePart.map_map (part : TemplatePart α) : (part.map f).map g = part.map (g ∘ f) := by
  cases part <;> rfl

theorem Construct.map_map (construct : Construct α) :
    (construct.map f).map g = construct.map (g ∘ f) := by
  cases construct <;>
    simp [Construct.map, FunctionDef.map, PropertyDef.map, ClassDef.map, EnumEntry.map,
      WhenBranch.map, CatchBlock.map, Argument.map, Function.comp_def, Param.map_map,
      WhenCondition.map_map, TemplatePart.map_map]

end Map

theorem Node.fold_mk {β : Type} (alg : Construct β → Option SourceRange → β) (construct range) :
    Node.fold alg ⟨construct, range⟩ = alg (construct.map (Node.fold alg)) range := by
  rw [Node.fold, Node.para_mk, Construct.map_map]
  rfl

theorem Node.written_mk (construct range) :
    Node.written ⟨construct, range⟩ =
      Written.ofConstruct (construct.map fun part => (part, part.written)) :=
  Node.para_mk _ construct range

/-! ## What is compared -/

/-- A number by its text. A negative one is the negation of its magnitude. -/
def numeral (text : String) : Node :=
  match text.toList with
  | '-' :: digits => ⟨.unary .neg ⟨.literal (.int (String.ofList digits)), none⟩, none⟩
  | _ => ⟨.literal (.int text), none⟩

def Construct.identified : Construct Node → Node
  | literal (.int text) => numeral text
  | literal (.double text) => numeral text
  | construct => ⟨construct, none⟩

/-- The tree without places in a source and with numbers known by their text. -/
def Node.identified (node : Node) : Node :=
  node.fold fun construct _ => construct.identified

theorem Node.identified_mk (construct range) :
    Node.identified ⟨construct, range⟩ = (construct.map Node.identified).identified :=
  Node.fold_mk _ construct range

/-- Digits with an optional fraction and an optional minus sign. -/
def IsNumber (text : String) : Prop :=
  IsNumeral text.toList ∨ ∃ digits, text.toList = '-' :: digits ∧ IsNumeral digits

def Literal.IsPlain : Literal → Prop
  | int text => IsNumber text
  | double text => IsNumber text
  | _ => True

/-- Expressions without templates and lambdas, with names that can stand where they do. -/
inductive Node.IsPlain : Node → Prop
  | reference {range : Option SourceRange} (hname : IsName name) :
    IsPlain ⟨.reference name, range⟩
  | literal {range : Option SourceRange} (hvalue : value.IsPlain) :
    IsPlain ⟨.literal value, range⟩
  | binary {range : Option SourceRange} :
    IsPlain lhs → IsPlain rhs → IsPlain ⟨.binary op lhs rhs, range⟩
  | unary {range : Option SourceRange} :
    IsPlain operand → IsPlain ⟨.unary op operand, range⟩
  | cast {range : Option SourceRange}
    (hty : IsReadable ty) : IsPlain value → IsPlain ⟨.cast kind value ty, range⟩
  | notNullAssert {range : Option SourceRange} :
    IsPlain value → IsPlain ⟨.notNullAssert value, range⟩
  | member {range : Option SourceRange}
    (hname : IsName name) : IsPlain base → IsPlain ⟨.member base name safe, range⟩
  | index {range : Option SourceRange} :
    IsPlain base → IsPlain position → IsPlain ⟨.index base position, range⟩
  | ifExpr {range : Option SourceRange} :
    IsPlain condition → IsPlain thenValue → IsPlain elseValue →
      IsPlain ⟨.ifExpr condition thenValue elseValue, range⟩
  | call {range : Option SourceRange}
    (hnames : ∀ argument ∈ args, ∀ name ∈ argument.name, IsName name) :
    IsPlain callee → (∀ argument ∈ args, IsPlain argument.value) →
      IsPlain ⟨.call callee args none, range⟩

/-! ## Operands -/

/-- The level on which an expression is written. -/
def Node.level (node : Node) : Nat :=
  min node.construct.precedence suffixLevel

/-- The expression is read back on its level. -/
def Node.ReadsBack (node : Node) : Prop :=
  Spells node.level node.written.value node.identified

theorem Node.ReadsBack.whole {node : Node} (h : node.ReadsBack) :
    Spells 0 node.written.value node.identified :=
  h.mono (Nat.zero_le _) (Nat.min_le_right _ _)

theorem Node.ReadsBack.parenthesized (h : node.ReadsBack) :
    Spells suffixLevel (Written.parenthesized (node, node.written)) node.identified :=
  h.whole.parenthesized

theorem Node.ReadsBack.operand (h : node.ReadsBack) (parent : Nat) (strict : Bool)
    (hparent : parent + strict.toNat ≤ suffixLevel) :
    Spells (parent + strict.toNat) (Written.operand parent strict (node, node.written))
      node.identified := by
  simp only [Written.operand]
  split
  · exact h.parenthesized.mono hparent (Nat.le_refl _)
  next hfits =>
    have hlevel : parent + strict.toNat ≤ node.level := by
      cases strict <;> simp [Node.level] at hfits hparent ⊢ <;> omega
    exact Spells.mono hlevel (Nat.min_le_right _ _) h

theorem suffix_le_precedence {α : Type} {construct : Construct α}
    (h : Precedence.unary ≤ construct.precedence) (hsigned : construct.isSigned = false) :
    suffixLevel ≤ construct.precedence := by
  have hconditional : ¬Precedence.unary ≤ Precedence.conditional := by decide
  cases construct with
  | binary op lhs rhs =>
    have hbinary : ¬Precedence.unary ≤ op.precedence := by cases op <;> decide
    exact absurd h hbinary
  | cast kind value ty =>
    have hcast : ¬Precedence.unary ≤ kind.precedence := by cases kind <;> decide
    exact absurd h hcast
  | ifExpr condition thenValue elseValue => exact absurd h hconditional
  | lambda params body => exact absurd h hconditional
  | unary op operand => cases hsigned
  | literal value =>
    have hsign : value.isNegative = false := hsigned
    rw [Construct.precedence, if_neg (by simp [hsign])]
    decide
  | _ => exact Nat.le_of_ble_eq_true rfl

theorem Node.ReadsBack.unaryOperand (h : node.ReadsBack) :
    Spells suffixLevel (Written.unaryOperand (node, node.written)) node.identified := by
  simp only [Written.unaryOperand]
  split
  · exact h.parenthesized
  next hfits =>
    simp only [Bool.or_eq_true, decide_eq_true_eq, not_or, Nat.not_lt, Bool.not_eq_true] at hfits
    have hlevel : suffixLevel ≤ node.level :=
      Nat.le_min.2 ⟨suffix_le_precedence hfits.1 hfits.2, Nat.le_refl _⟩
    exact Spells.mono hlevel (Nat.min_le_right _ _) h

/-! ## One layer -/

section Layer

theorem readsBack_reference (hname : IsName name) : Node.ReadsBack ⟨.reference name, range⟩ := by
  obtain ⟨c, cs, htext, -, hc⟩ := hname.exists_cons
  refine spells_token (fun rest hends => nextToken?_name hname hends.1) (fun _ => .word) ?_
  exact ⟨c, cs, htext, by grind, by grind⟩

theorem spells_number (htext : IsNumeral text.toList) :
    Spells suffixLevel (.ofString text) ⟨.literal (.int text), none⟩ := by
  obtain ⟨c, cs, hcons, hdigit⟩ := htext.exists_cons
  have hnext (rest : List Char) (hends : EndsWord rest) :
      nextToken? (text.toList ++ rest) = some (.number text, rest) := by
    rw [nextToken?_number htext hends, String.ofList_toList]
  refine spells_token hnext (fun _ => .number) ⟨c, cs, hcons, ?_, ?_⟩
  · rintro rfl
    cases hdigit
  · rintro rfl
    cases hdigit

theorem spells_numeral (range) (htext : IsNumber text) :
    Spells (Node.level ⟨.literal (.int text), range⟩) (.ofString text) (numeral text) := by
  rcases htext with htext | ⟨digits, hcons, hdigits⟩
  · obtain ⟨c, cs, hcons, hdigit⟩ := htext.exists_cons
    have hminus : c ≠ '-' := by
      rintro rfl
      cases hdigit
    have hlevel : Node.level ⟨.literal (.int text), range⟩ = suffixLevel := by
      simp [Node.level, Construct.precedence, Literal.isNegative, hcons, hminus]
      decide
    have hnumeral : numeral text = ⟨.literal (.int text), none⟩ := by
      simp [numeral, hcons, hminus]
    rw [hlevel, hnumeral]
    exact spells_number htext
  · have hlevel : Node.level ⟨.literal (.int text), range⟩ = signLevel := by
      simp [Node.level, Construct.precedence, Literal.isNegative, hcons]
      decide
    have hnumeral : numeral text =
        ⟨.unary .neg ⟨.literal (.int (String.ofList digits)), none⟩, none⟩ := by
      simp [numeral, hcons]
    have htext : text = "-" ++ String.ofList digits := by
      rw [← String.toList_inj]
      simp [hcons]
    have hmagnitude : IsNumeral (String.ofList digits).toList := by
      rw [String.toList_ofList]
      exact hdigits
    rw [hlevel, hnumeral, htext]
    exact (spells_number hmagnitude).unary .neg

theorem spells_constant (hvalue : IsConstant value) :
    Spells suffixLevel (.ofString value.source) ⟨.literal value, none⟩ := by
  refine spells_token (fun rest hends => nextToken?_constant hvalue hends.1) (fun _ => .constant) ?_
  cases value with
  | int text => exact absurd rfl (hvalue text).1
  | double text => exact absurd rfl (hvalue text).2
  | bool value => cases value <;> exact ⟨_, _, rfl, by decide, by decide⟩
  | null => exact ⟨_, _, rfl, by decide, by decide⟩
  | string text =>
    exact ⟨'"', (escaped text ++ "\"").toList, by simp [Literal.source, stringLiteral], by decide,
      by decide⟩

theorem readsBack_literal (hvalue : value.IsPlain) : Node.ReadsBack ⟨.literal value, range⟩ := by
  cases value with
  | int text => exact spells_numeral range hvalue
  | double text => exact spells_numeral range hvalue
  | _ => exact spells_constant (by simp [IsConstant])

theorem readsBack_binary (hl : lhs.ReadsBack) (hr : rhs.ReadsBack) :
    Node.ReadsBack ⟨.binary op lhs rhs, range⟩ := by
  have hlevel : Node.level ⟨.binary op lhs rhs, range⟩ = op.precedence :=
    Nat.min_eq_left (Nat.le_of_lt (precedence_lt_suffixLevel op))
  have hstrict : op.precedence + op.isNonAssociative.toNat ≤ suffixLevel := by cases op <;> decide
  rw [Node.ReadsBack, hlevel, Node.written_mk, Node.identified_mk]
  exact .binary op ((hl.operand op.precedence op.isNonAssociative hstrict).mono
    (Nat.le_add_right _ _) hstrict) (hr.operand op.precedence true (precedence_lt_suffixLevel op))

theorem readsBack_unary (h : operand.ReadsBack) : Node.ReadsBack ⟨.unary op operand, range⟩ := by
  exact h.unaryOperand.unary op

theorem readsBack_cast (hty : IsReadable ty) (h : value.ReadsBack) :
    Node.ReadsBack ⟨.cast kind value ty, range⟩ := by
  have hlevel : Node.level ⟨.cast kind value ty, range⟩ = kind.precedence := by cases kind <;> rfl
  have hfits : kind.precedence ≤ suffixLevel := by cases kind <;> decide
  rw [Node.ReadsBack, hlevel, Node.written_mk, Node.identified_mk]
  exact .cast kind (h.operand kind.precedence false hfits) hty

theorem readsBack_notNullAssert (h : value.ReadsBack) :
    Node.ReadsBack ⟨.notNullAssert value, range⟩ := by
  exact (h.operand suffixLevel false (Nat.le_refl _)).notNull

theorem readsBack_member (hname : IsName name) (h : base.ReadsBack) :
    Node.ReadsBack ⟨.member base name safe, range⟩ := by
  exact (h.operand suffixLevel false (Nat.le_refl _)).member hname safe

theorem readsBack_index (h : base.ReadsBack) (hposition : position.ReadsBack) :
    Node.ReadsBack ⟨.index base position, range⟩ := by
  exact (h.operand suffixLevel false (Nat.le_refl _)).index hposition.whole

theorem readsBack_ifExpr (hc : condition.ReadsBack) (ht : thenValue.ReadsBack)
    (he : elseValue.ReadsBack) :
    Node.ReadsBack ⟨.ifExpr condition thenValue elseValue, range⟩ := by
  exact .conditional hc.whole ht.whole he.whole

theorem spellsArgument {argument : Argument Node} (hname : ∀ name ∈ argument.name, IsName name)
    (h : argument.value.ReadsBack) :
    SpellsArgument (Written.argument (argument.map fun part => (part, part.written)))
      (argument.map Node.identified) := by
  obtain ⟨name, value⟩ := argument
  cases name with
  | none => exact h.whole.argument
  | some name => exact h.whole.namedArgument (hname name rfl)

theorem arguments_none (args) :
    Written.arguments args none =
      "(" ++ Fragment.separated ", " (args.map Written.argument) ++ ")" := by
  cases args <;> rfl

theorem readsBack_call (hnames : ∀ argument ∈ args, ∀ name ∈ argument.name, IsName name)
    (h : callee.ReadsBack) (hargs : ∀ argument ∈ args, argument.value.ReadsBack) :
    Node.ReadsBack ⟨.call callee args none, range⟩ := by
  have hcall := (h.operand suffixLevel false (Nat.le_refl _)).call args fun argument hargument =>
    spellsArgument (hnames argument hargument) (hargs argument hargument)
  rw [Node.ReadsBack, Node.written_mk, Node.identified_mk]
  show Spells suffixLevel (_ ++ Written.arguments _ none) _
  rw [arguments_none, List.map_map]
  exact hcall

end Layer

theorem Node.IsPlain.readsBack {node : Node} (h : node.IsPlain) : node.ReadsBack := by
  induction h with
  | reference hname => exact readsBack_reference hname
  | literal hvalue => exact readsBack_literal hvalue
  | binary _ _ ihl ihr => exact readsBack_binary ihl ihr
  | unary _ ih => exact readsBack_unary ih
  | cast hty _ ih => exact readsBack_cast hty ih
  | notNullAssert _ ih => exact readsBack_notNullAssert ih
  | member hname _ ih => exact readsBack_member hname ih
  | index _ _ ih ihposition => exact readsBack_index ih ihposition
  | ifExpr _ _ _ ihc iht ihe => exact readsBack_ifExpr ihc iht ihe
  | call hnames _ _ ih ihargs => exact readsBack_call hnames ih ihargs

theorem ends_nil : Ends 0 [] := by
  refine ⟨⟨?_, ?_⟩, fun _ => ⟨?_, ?_⟩⟩ <;> simp [EndsIdentifier, EndsName]

theorem Node.ReadsBack.parses {node : Node} (h : node.ReadsBack) :
    Parses node.written.value.head node.identified := by
  obtain ⟨text, tokens, hfragment, hspelling⟩ := h.whole
  have hlexes : Lexes text.toList tokens := by simpa using hspelling.lexes ends_nil .nil
  have hstops : Stops 0 [] := by simp [Stops]
  have hreads : Reads (.level 0) tokens node.identified [] := by
    simpa using hspelling.reads_whole hstops
  rw [hfragment]
  exact ⟨tokens, hlexes, hreads⟩

/-- The text written for an expression is one line, is read as the tree it was written for, and as
no other. Hence different trees have different texts. -/
theorem Node.parses_written_iff {node : Node} (h : node.IsPlain) :
    node.written.value.below = [] ∧
      (∀ tree, Parses node.written.value.head tree ↔ tree = node.identified) ∧
      ∀ other : Node, other.IsPlain → other.written.value.head = node.written.value.head →
        other.identified = node.identified := by
  have hparses := h.readsBack.parses
  refine ⟨?_, fun tree => ⟨fun htree => htree.unique hparses, ?_⟩, ?_⟩
  · obtain ⟨text, -, hfragment, -⟩ := h.readsBack.whole
    rw [hfragment]
    rfl
  · rintro rfl
    exact hparses
  · intro other hother htext
    have hread := hother.readsBack.parses
    rw [htext] at hread
    exact hread.unique hparses

/-- Signs in a row, a type before an operator, a branch that reaches to the end of an argument, and
a name that is an operator elsewhere. -/
def intricate : Node :=
  let name (text : String) : Node := .reference text none
  let number (text : String) : Node := .literal (.int text) none
  let value : Node :=
    ⟨.cast .safe ⟨.unary .neg (number "-5"), none⟩ (.nullable (.named "Int" [])), none⟩
  let branch : Node :=
    ⟨.ifExpr (name "p") (.binary .lt (name "b") (name "to") none) (number "-2"), none⟩
  let call : Node := ⟨.call (.member (name "a") "to" none) [⟨some "x", branch⟩] none, none⟩
  .binary .eq (.binary .elvis value call none) (name "d") none

theorem intricate_isPlain : intricate.IsPlain := by
  have plain {text : String} (h : isPlainIdentifier text = true ∧ text ∉ reserved) :
      Node.IsPlain (.reference text none) := .reference (.inl h)
  have hty : IsReadable (.nullable (.named "Int" [])) :=
    ⟨by decide, List.all_eq_true.1 rfl, trivial⟩
  refine .binary (.binary (.cast hty (.unary ?_)) (.call ?_ (.member ?_ ?_) ?_)) (plain (by decide))
  · exact .literal (.inr ⟨['5'], rfl, .inl rfl⟩)
  · simp only [List.mem_singleton, forall_eq, Option.mem_some, forall_eq']
    exact .inl (by decide)
  · exact .inl (by decide)
  · exact plain (by decide)
  · simp only [List.mem_singleton, forall_eq]
    exact .ifExpr (plain (by decide)) (.binary (plain (by decide)) (plain (by decide)))
      (.literal (.inr ⟨['2'], rfl, .inl rfl⟩))

theorem parses_written_intricate :
    intricate.IsPlain ∧
      ∀ tree, Parses "-(-5) as? Int? ?: a.to(x = if (p) b < to else -2) == d" tree ↔
        tree = intricate.identified := by
  have htext : intricate.written.value.head =
      "-(-5) as? Int? ?: a.to(x = if (p) b < to else -2) == d" := by decide +kernel
  rw [← htext]
  exact ⟨intricate_isPlain, (Node.parses_written_iff intricate_isPlain).2.1⟩

end SwiftToKotlin.Kotlin
