import SwiftToKotlin.Conversion
import SwiftToKotlin.Proofs.Kotlin.Grammar.LambdaSpelling
import SwiftToKotlin.Proofs.Kotlin.Occurrence

/-!
# Calls with trailing lambdas are read back

The source of a tree of calls is read as one tree, which need not be the tree it was written for:
the empty argument list before a trailing lambda is left out, so that the lambda goes to the callee
if this is a call that ends in its arguments, and a lambda that is a statement goes to the statement
before it. The tree is read back exactly if neither occurs in it.
-/

namespace SwiftToKotlin.Kotlin

open CallGrammar
open Grammar (IsName)

/-! ## What is read and what was meant -/

variable {node : Node}

/-- The construct that is read, from what is read for its parts. -/
def Construct.joined : Construct Node → Construct Node
  | .call callee [] (some trailing) => callee.construct.applied trailing
  | .lambda names body =>
    .lambda (spokenNames names) ((joinStatements (body.map Node.construct)).map (⟨·, none⟩))
  | construct => construct

theorem Construct.joined_call_none (callee : Node) (args) :
    (Construct.call callee args none).joined = .call callee args none := by
  cases args <;> rfl

/-- The tree that is read from the text of the tree. -/
def Node.joined (node : Node) : Node :=
  node.fold fun construct _ => ⟨construct.joined, none⟩

def Construct.bare : Construct Node → Construct Node
  | .lambda names body => .lambda (spokenNames names) body
  | construct => construct

/-- The tree without places in a source and without the name of an implicit parameter. -/
def Node.bare (node : Node) : Node :=
  node.fold fun construct _ => ⟨construct.bare, none⟩

theorem Node.joined_mk (construct range) :
    Node.joined ⟨construct, range⟩ = ⟨(construct.map Node.joined).joined, none⟩ :=
  Node.fold_mk _ construct range

theorem Node.bare_mk (construct range) :
    Node.bare ⟨construct, range⟩ = ⟨(construct.map Node.bare).bare, none⟩ :=
  Node.fold_mk _ construct range

theorem Node.mk_construct_joined (node : Node) : ⟨node.joined.construct, none⟩ = node.joined := by
  obtain ⟨construct, range⟩ := node
  rw [Node.joined_mk]

/-- Trees of names, members, calls and lambdas, with names that can stand where they do. -/
inductive Node.IsCallTree : Node → Prop
  | reference {name : String} {range : Option SourceRange} (hname : IsName name) :
    IsCallTree ⟨.reference name, range⟩
  | member {base : Node} {name : String} {safe : Bool} {range : Option SourceRange}
    (hname : IsName name) : IsCallTree base → IsCallTree ⟨.member base name safe, range⟩
  | call {callee : Node} {args : List (Argument Node)} {trailing : Option Node}
    {range : Option SourceRange}
    (hnames : ∀ argument ∈ args, ∀ name ∈ argument.name, IsName name)
    (htrailing : ∀ lambda ∈ trailing, lambda.construct.isLambda = true) :
    IsCallTree callee → (∀ argument ∈ args, IsCallTree argument.value) →
      (∀ lambda ∈ trailing, IsCallTree lambda) → IsCallTree ⟨.call callee args trailing, range⟩
  | lambda {names : List String} {body : List Node} {range : Option SourceRange}
    (hnames : ∀ name ∈ names, IsName name) :
    (∀ statement ∈ body, IsCallTree statement) → IsCallTree ⟨.lambda names body, range⟩

theorem Construct.isLambda_applied (base : Construct Node) (lambda : Node) :
    (base.applied lambda).isLambda = false := by
  unfold Construct.applied
  split <;> rfl

theorem Node.isLambda_joined (node : Node) :
    node.joined.construct.isLambda = node.construct.isLambda := by
  obtain ⟨construct, range⟩ := node
  cases construct with
  | call callee args trailing =>
    rcases args with _ | _ <;> rcases trailing with _ | _ <;>
      first | rfl | exact Construct.isLambda_applied _ _
  | _ => rfl

/-! ## Layers -/

/-- The tree is written so that it is read as it is joined. -/
def Node.Rereads (node : Node) : Prop :=
  Spells node.written.value node.joined.construct

section Layer

theorem Node.Rereads.operand (h : node.IsCallTree) (hreads : node.Rereads) :
    SpellsOperand (Written.operand Precedence.suffix false (node, node.written))
      node.joined.construct := by
  have hopening (hlambda : node.construct.isLambda = false)
      (hprecedence : ¬node.construct.precedence < Precedence.suffix) :
      SpellsOperand (Written.operand Precedence.suffix false (node, node.written))
        node.joined.construct := by
    obtain ⟨symbols, hbegins, hspelling⟩ := hreads
    rw [Written.operand]
    simp only [hprecedence, decide_false, Bool.and_false, Bool.or_self, Bool.false_eq_true]
    exact ⟨symbols, hbegins.opening (by rw [Node.isLambda_joined, hlambda]), hspelling⟩
  cases h with
  | reference => exact hopening rfl (Nat.not_lt.2 (Nat.le_of_ble_eq_true rfl))
  | member => exact hopening rfl (Nat.lt_irrefl _)
  | call => exact hopening rfl (Nat.lt_irrefl _)
  | lambda => exact hreads.parenthesized (Node.isLambda_joined _)

theorem rereads_reference (hname : IsName name) : Node.Rereads ⟨.reference name, range⟩ := by
  exact spells_name hname

theorem rereads_member (hname : IsName name) (h : base.IsCallTree) (hreads : base.Rereads) :
    Node.Rereads ⟨.member base name safe, range⟩ := by
  have hmember := (hreads.operand h).member hname safe
  rw [Node.mk_construct_joined] at hmember
  exact hmember

theorem rereads_argument {argument : Argument Node} (hname : ∀ name ∈ argument.name, IsName name)
    (h : argument.value.Rereads) :
    SpellsArgument (Written.argument (argument.map fun part => (part, part.written)))
      (argument.map Node.joined) := by
  obtain ⟨name, value⟩ := argument
  cases name with
  | none =>
    have hvalue := Spells.argument h
    rw [Node.mk_construct_joined] at hvalue
    exact hvalue
  | some name =>
    have hvalue := Spells.namedArgument h (hname name rfl)
    rw [Node.mk_construct_joined] at hvalue
    exact hvalue

theorem rereads_call (hnames : ∀ argument ∈ args, ∀ name ∈ argument.name, IsName name)
    (htrailing : ∀ lambda ∈ trailing, lambda.construct.isLambda = true) (h : callee.IsCallTree)
    (hcallee : callee.Rereads) (hargs : ∀ argument ∈ args, argument.value.Rereads)
    (hlambda : ∀ lambda ∈ trailing, lambda.Rereads) :
    Node.Rereads ⟨.call callee args trailing, range⟩ := by
  have hoperand := hcallee.operand h
  have hitems : ∀ argument ∈ args,
      SpellsArgument (Written.argument (argument.map fun part => (part, part.written)))
        (argument.map Node.joined) := fun argument hargument =>
    rereads_argument (hnames argument hargument) (hargs argument hargument)
  rw [Node.Rereads, Node.written_mk, Node.joined_mk]
  show Spells (_ ++ Written.arguments _ _) _
  cases trailing with
  | none =>
    have hcall := hoperand.call args hitems
    rw [Node.mk_construct_joined] at hcall
    simp only [Construct.map, Option.map_none, Construct.joined_call_none, arguments_none,
      List.map_map]
    exact hcall
  | some lambda =>
    have hreads : Spells lambda.written.value lambda.joined.construct := hlambda lambda rfl
    have hisLambda : lambda.joined.construct.isLambda = true := by
      rw [Node.isLambda_joined]
      exact htrailing lambda rfl
    cases args with
    | nil =>
      have happly := hoperand.apply hreads hisLambda
      rw [Node.mk_construct_joined] at happly
      exact happly
    | cons first args =>
      have hcall := hoperand.callTrailing (first :: args) hitems hreads hisLambda
      rw [Node.mk_construct_joined, Node.mk_construct_joined, List.map_cons, ← Function.comp_def,
        ← List.map_map] at hcall
      exact hcall

theorem Node.IsCallTree.written_statement (h : node.IsCallTree) :
    node.written.statement = node.written.value := by
  cases h <;> rw [Node.written_mk] <;> rfl

theorem rereads_lambda (hnames : ∀ name ∈ names, IsName name)
    (h : ∀ statement ∈ body, statement.IsCallTree) (hbody : ∀ statement ∈ body, statement.Rereads) :
    Node.Rereads ⟨.lambda names body, range⟩ := by
  rw [Node.Rereads, Node.written_mk, Node.joined_mk]
  show Spells (Written.lambda names (body.map fun part => (part, part.written)))
    (.lambda (spokenNames names)
      ((joinStatements ((body.map Node.joined).map Node.construct)).map (⟨·, none⟩)))
  rw [List.map_map]
  cases body with
  | nil => exact spells_emptyLambda hnames
  | cons first rest =>
    have hlines : Spells (.ofString (lambdaOpening names) ++
          .nested (stacked (((first :: rest).map fun part => (part, part.written)).map
            Written.asStatement)) ++ ⟨"", [.code 0 "\x7d"]⟩)
        (.lambda (spokenNames names) ((joinStatements
          ((first :: rest).map (Node.construct ∘ Node.joined))).map (⟨·, none⟩))) := by
      rw [List.map_map]
      refine spells_blockLambda hnames first rest fun statement hstatement => ?_
      have hspells : Spells statement.written.value _ := hbody statement hstatement
      rw [← (h statement hstatement).written_statement] at hspells
      exact hspells
    cases rest with
    | nil =>
      rw [List.map_singleton, Written.lambda]
      split
      · exact spells_inlineLambda hnames (hbody first List.mem_cons_self)
      · exact hlines
    | cons second rest => exact hlines

end Layer

theorem Node.IsCallTree.rereads (h : node.IsCallTree) : node.Rereads := by
  induction h with
  | reference hname => exact rereads_reference hname
  | member hname h ih => exact rereads_member hname h ih
  | call hnames htrailing h _ _ ih ihargs ihtrailing =>
    exact rereads_call hnames htrailing h ih ihargs ihtrailing
  | lambda hnames h ih => exact rereads_lambda hnames h ih

theorem trimEnd_concat_lineBreak (h : EndsInCode text) : Text.trimEnd (text ++ ['\n']) = text := by
  obtain ⟨c, hc, hblank⟩ := h
  obtain ⟨init, rfl⟩ := List.getLast?_eq_some_iff.1 hc
  simp [Text.trimEnd, hblank, show Text.isBlank '\n' = true from rfl]

/-- The rendered text of a fragment that spells an expression. -/
theorem CallGrammar.Spells.parses (h : Spells fragment construct) (width : Nat) :
    Parses (renderLines width fragment.lines) ⟨construct, none⟩ := by
  obtain ⟨symbols, -, h⟩ := h
  obtain ⟨text, htext, hrendered⟩ := fragment.exists_laidOut_renderedLines width
  have hsource : (renderLines width fragment.lines).toList = text ++ ['\n'] := by
    have hraw : (String.join (fragment.lines.map fun line => line.render width ++ "\n")).toList =
        renderedLines width fragment.lines := by
      simp [renderedLines, List.flatMap_map]
    rw [renderLines, String.toList_append, String.toList_ofList, hraw, hrendered,
      trimEnd_concat_lineBreak (h.endsInCode htext)]
    rfl
  have hbreak : Lexes ['\n'] [.lineBreak] := Lexes.nil.lineBreak 0
  refine ⟨symbols ++ [.lineBreak], [.lineBreak], ?_, h.reads_whole rfl, rfl⟩
  rw [hsource]
  exact h.lexes htext (endsIdentifier_cons (by decide) _) hbreak

theorem Node.IsCallTree.parses_source (h : node.IsCallTree) (width : Nat) :
    Parses (node.source width) node.joined := by
  have hlines : node.lines = node.written.value.lines := by
    cases h <;> rfl
  rw [Node.source, hlines, ← Node.mk_construct_joined]
  exact CallGrammar.Spells.parses h.rereads width

/-! ## Trees that are read back -/

/-- Whether the construct is a call without a trailing lambda. -/
def Construct.endsInArguments : Construct Node → Bool
  | .call _ _ none => true
  | _ => false

/-- Whether a lambda in the construct is read as belonging to a part that it does not belong to: to
a callee that ends in its arguments, or to the statement before it. -/
def Construct.losesBoundary : Construct Node → Bool
  | .call callee [] (some _) => callee.construct.endsInArguments
  | .lambda _ body => body.tail.any fun statement => statement.construct.isLambda
  | _ => false

/-- Every lambda is read as belonging to what it belongs to. -/
def Node.KeepsBoundaries (node : Node) : Prop :=
  ∀ part : Node, part.OccursIn node → part.construct.losesBoundary = false

theorem Node.keepsBoundaries_mk {construct : Construct Node} {range : Option SourceRange} :
    Node.KeepsBoundaries ⟨construct, range⟩ ↔
      construct.losesBoundary = false ∧ ∀ part ∈ construct.parts, part.KeepsBoundaries := by
  constructor
  · exact fun h => ⟨h _ .here, fun part hpart inner hinner => h inner (.part hpart hinner)⟩
  · rintro ⟨hown, hparts⟩ part hpart
    rcases Node.occursIn_mk.1 hpart with rfl | ⟨whole, hwhole, hin⟩
    · exact hown
    · exact hparts whole hwhole part hin

theorem Construct.applied_of_endsInArguments_eq_false {base : Construct Node}
    (h : base.endsInArguments = false) (lambda : Node) :
    base.applied lambda = .call ⟨base, none⟩ [] (some lambda) := by
  unfold Construct.applied
  split
  · cases h
  · rfl

theorem Node.endsInArguments_joined (node : Node) :
    node.joined.construct.endsInArguments = node.construct.endsInArguments := by
  obtain ⟨construct, range⟩ := node
  cases construct with
  | call callee args trailing =>
    rcases args with _ | _ <;> rcases trailing with _ | _
    case nil.some lambda =>
      change (callee.joined.construct.applied lambda.joined).endsInArguments = false
      unfold Construct.applied
      split <;> rfl
    all_goals rfl
  | _ => rfl

theorem length_joinBehind (first rest) :
    (joinBehind first rest).length = rest.countP (fun next => !next.isLambda) + 1 := by
  induction rest generalizing first with
  | nil => rfl
  | cons next rest ih =>
    rw [joinBehind]
    split
    next hlambda => rw [ih, List.countP_cons_of_neg (by simp [hlambda])]
    next hlambda => rw [List.length_cons, ih, List.countP_cons_of_pos (by simp [hlambda])]

theorem length_joinStatements_lt (h : statements.tail.any Construct.isLambda = true) :
    (joinStatements statements).length < statements.length := by
  cases statements with
  | nil => cases h
  | cons first rest =>
    obtain ⟨next, hnext, hlambda⟩ := List.any_eq_true.1 h
    have hcount : rest.countP (fun next => !next.isLambda) < rest.length := by
      refine Nat.lt_of_le_of_ne List.countP_le_length fun heq => ?_
      simpa [hlambda] using List.countP_eq_length.1 heq next hnext
    rw [joinStatements, length_joinBehind, List.length_cons]
    omega

theorem joinBehind_eq_cons (h : ∀ next ∈ rest, next.isLambda = false) (first) :
    joinBehind first rest = first :: rest := by
  induction rest generalizing first with
  | nil => rfl
  | cons next rest ih =>
    obtain ⟨hnext, hrest⟩ := List.forall_mem_cons.1 h
    rw [joinBehind, if_neg (by simp [hnext]), ih hrest]

theorem joinStatements_eq_self (h : ∀ next ∈ statements.tail, next.isLambda = false) :
    joinStatements statements = statements := by
  cases statements with
  | nil => rfl
  | cons first rest => exact joinBehind_eq_cons h first

/-- Where no lambda is lost, the layer is read as it was written. -/
theorem Construct.joined_map_eq_bare {construct : Construct Node}
    (h : construct.losesBoundary = false) :
    (construct.map Node.joined).joined = (construct.map Node.joined).bare := by
  cases construct with
  | call callee args trailing =>
    cases trailing with
    | none => exact Construct.joined_call_none _ _
    | some lambda =>
      cases args with
      | nil =>
        have hends : callee.joined.construct.endsInArguments = false := by
          rw [Node.endsInArguments_joined]
          exact h
        show callee.joined.construct.applied lambda.joined = _
        rw [Construct.applied_of_endsInArguments_eq_false hends, Node.mk_construct_joined]
        rfl
      | cons first args => rfl
  | lambda names body =>
    have hbody : (joinStatements ((body.map Node.joined).map Node.construct)).map (⟨·, none⟩) =
        body.map Node.joined := by
      rw [joinStatements_eq_self]
      · simp [Node.mk_construct_joined]
      · rw [List.map_map, ← List.map_tail]
        intro next hnext
        obtain ⟨statement, hstatement, rfl⟩ := List.mem_map.1 hnext
        rw [Function.comp_apply, Node.isLambda_joined]
        exact eq_false_of_ne_true (List.any_eq_false.1 h statement hstatement)
    show Construct.lambda _ (List.map _ (joinStatements _)) = _
    rw [hbody]
    rfl
  | _ => rfl

/-- How many calls a callee is nested in. -/
def Node.calleeDepth (node : Node) : Nat :=
  node.fold fun construct _ =>
    match construct with
    | .call callee _ _ => callee + 1
    | _ => 0

theorem Node.calleeDepth_mk (construct range) :
    Node.calleeDepth ⟨construct, range⟩ =
      match construct with
      | .call callee _ _ => callee.calleeDepth + 1
      | _ => 0 := by
  cases construct <;> rfl

theorem calleeDepth_applied_le (base) (lambda : Node) :
    Node.calleeDepth ⟨base.applied lambda, none⟩ + base.endsInArguments.toNat ≤
      Node.calleeDepth ⟨base, none⟩ + 1 := by
  cases hends : base.endsInArguments with
  | false =>
    rw [Construct.applied_of_endsInArguments_eq_false hends, Node.calleeDepth_mk]
    exact Nat.le_refl _
  | true =>
    unfold Construct.endsInArguments at hends
    split at hends
    · simp [Construct.applied, Node.calleeDepth_mk]
    · cases hends

/-- A call is nested less deep if it is read as one with its callee. -/
theorem calleeDepth_joined_call_le (callee : Node) (args trailing range) :
    (Node.joined ⟨.call callee args trailing, range⟩).calleeDepth +
        (Construct.call callee args trailing).losesBoundary.toNat ≤
      callee.joined.calleeDepth + 1 := by
  rw [Node.joined_mk]
  rcases args with _ | _ <;> rcases trailing with _ | lambda
  case nil.some =>
    have happlied := calleeDepth_applied_le callee.joined.construct lambda.joined
    rw [Node.mk_construct_joined, Node.endsInArguments_joined] at happlied
    exact happlied
  all_goals
    simp [Construct.map, Construct.joined, Construct.losesBoundary, Node.calleeDepth_mk]

theorem Node.IsCallTree.calleeDepth_joined_le (h : node.IsCallTree) :
    node.joined.calleeDepth ≤ node.calleeDepth := by
  induction h with
  | @call callee args trailing range _ _ _ _ _ ih =>
    have hcall := calleeDepth_joined_call_le callee args trailing range
    rw [Node.calleeDepth_mk]
    dsimp only
    omega
  | _ =>
    exact Nat.zero_le _

theorem Node.IsCallTree.calleeDepth_bare (h : node.IsCallTree) :
    node.bare.calleeDepth = node.calleeDepth := by
  induction h <;> simp_all [Node.bare_mk, Node.calleeDepth_mk, Construct.map, Construct.bare]

/-- Where a lambda is lost, the tree is not read back. -/
theorem Node.IsCallTree.joined_ne_bare (h : node.IsCallTree)
    (hloses : node.construct.losesBoundary = true) : node.joined ≠ node.bare := by
  intro heq
  cases h with
  | reference => cases hloses
  | member => cases hloses
  | @call callee args trailing range hnames htrailing hcallee hargs hlambda =>
    have hdepth := congrArg Node.calleeDepth heq
    rw [(Node.IsCallTree.call hnames htrailing hcallee hargs hlambda).calleeDepth_bare,
      Node.calleeDepth_mk] at hdepth
    have hcall := calleeDepth_joined_call_le callee args trailing range
    have hle := hcallee.calleeDepth_joined_le
    rw [hloses, hdepth] at hcall
    simp at hcall
    omega
  | @lambda names body range hnames hbody =>
    rw [Node.joined_mk, Node.bare_mk] at heq
    have hstatements :
        (joinStatements ((body.map Node.joined).map Node.construct)).map (⟨·, none⟩) =
          body.map Node.bare := by
      injection heq with hconstruct
      injection hconstruct
    have hshorter : (joinStatements ((body.map Node.joined).map Node.construct)).length <
        ((body.map Node.joined).map Node.construct).length := by
      refine length_joinStatements_lt ?_
      obtain ⟨statement, hstatement, hlambda⟩ := List.any_eq_true.1 hloses
      rw [List.map_map, ← List.map_tail, List.any_map]
      exact List.any_eq_true.2 ⟨statement, hstatement, by simp [Node.isLambda_joined, hlambda]⟩
    have hlength := congrArg List.length hstatements
    simp only [List.length_map] at hlength hshorter
    omega

/-- Induction over a tree of calls from its parts upwards. -/
theorem Node.IsCallTree.of_parts {motive : Node → Prop} (h : node.IsCallTree)
    (step : ∀ node : Node, node.IsCallTree → (∀ part ∈ node.construct.parts, motive part) →
      motive node) : motive node := by
  induction h with
  | reference hname => exact step _ (.reference hname) (by simp)
  | member hname h ih => exact step _ (.member hname h) (by simpa using ih)
  | call hnames htrailing h hargs hlambda ih ihargs ihlambda =>
    refine step _ (.call hnames htrailing h hargs hlambda) fun part hpart => ?_
    simp only [Construct.parts, List.cons_append, List.mem_cons, List.mem_append, List.mem_map,
      Option.mem_toList] at hpart
    rcases hpart with rfl | ⟨argument, hargument, rfl⟩ | hpart
    · exact ih
    · exact ihargs argument hargument
    · exact ihlambda part hpart
  | lambda hnames h ih => exact step _ (.lambda hnames h) ih

theorem Node.IsCallTree.bare_map_eq_iff (h : node.IsCallTree) (f g) :
    (node.construct.map f).bare = (node.construct.map g).bare ↔
      ∀ part ∈ node.construct.parts, f part = g part := by
  cases h with
  | reference => simp [Construct.map]
  | member => simp [Construct.map, Construct.bare]
  | @call callee args trailing =>
    cases trailing <;>
      simp [Construct.map, Construct.bare, Argument.map, or_imp, forall_and]
  | lambda => simp [Construct.map, Construct.bare]

theorem Node.IsCallTree.joined_eq_bare_iff (h : node.IsCallTree) :
    node.joined = node.bare ↔ node.KeepsBoundaries := by
  refine h.of_parts (motive := fun node => node.joined = node.bare ↔ node.KeepsBoundaries)
    fun node h ih => ?_
  cases hloses : node.construct.losesBoundary with
  | true =>
    refine iff_of_false (h.joined_ne_bare hloses) fun hkeeps => ?_
    rw [hkeeps node .here] at hloses
    cases hloses
  | false =>
    have hlayer := h.bare_map_eq_iff Node.joined Node.bare
    obtain ⟨construct, range⟩ := node
    rw [Node.joined_mk, Construct.joined_map_eq_bare hloses, Node.bare_mk, Node.mk.injEq,
      Node.keepsBoundaries_mk]
    simp only [and_true, hlayer, hloses, true_and]
    exact forall₂_congr ih

/-- The source of a tree of calls is read as one tree and as no other. It is the tree that the
source was written for exactly if no call without arguments has a trailing lambda behind a call that
ends in its arguments, and no lambda is a statement behind another. -/
theorem Node.parses_source_iff_keepsBoundaries {node : Node} (h : node.IsCallTree) (width : Nat) :
    (∀ tree, Parses (node.source width) tree ↔ tree = node.joined) ∧
      (Parses (node.source width) node.bare ↔ node.KeepsBoundaries) := by
  have hparses (tree : Node) : Parses (node.source width) tree ↔ tree = node.joined := by
    constructor
    · exact fun htree => htree.unique (h.parses_source width)
    · rintro rfl
      exact h.parses_source width
  refine ⟨hparses, ?_⟩
  rw [hparses, eq_comm]
  exact h.joined_eq_bare_iff

/-- Lambdas as an argument, behind a member and in a lambda of several statements. -/
def chainedCalls : Node :=
  let name (text : String) : Node := .reference text none
  let call (callee : Node) (args : List (Argument Node)) : Node := ⟨.call callee args none, none⟩
  let applied (callee : Node) (names : List String) (body : List Node) : Node :=
    ⟨.call callee [] (some ⟨.lambda names body, none⟩), none⟩
  let task : Argument Node := ⟨some "task", ⟨.lambda ["it"] [name "it"], none⟩⟩
  let first := applied (.member (call (name "f") [⟨none, name "x"⟩]) "g" none) [] [name "y"]
  applied (.member (call (name "run") [task]) "then" none) ["x", "y"] [first, call (name "h") []]

theorem chainedCalls_isCallTree : chainedCalls.IsCallTree := by
  have hplain {name : String} (h : isPlainIdentifier name = true ∧ name ∉ Grammar.reserved) :
      IsName name := .inl h
  have hname {name : String} (h : isPlainIdentifier name = true ∧ name ∉ Grammar.reserved) :
      Node.IsCallTree (.reference name none) := .reference (.inl h)
  have happlied {callee : Node} {names : List String} {body : List Node} (h : callee.IsCallTree)
      (hnames : ∀ name ∈ names, IsName name) (hbody : ∀ part ∈ body, Node.IsCallTree part) :
      Node.IsCallTree ⟨.call callee [] (some ⟨.lambda names body, none⟩), none⟩ := by
    refine .call (by simp) ?_ h (by simp) ?_
    · rintro _ ⟨⟩
      rfl
    · rintro _ ⟨⟩
      exact .lambda hnames hbody
  refine happlied (.member (hplain (by decide))
    (.call ?_ (by simp) (hname (by decide)) ?_ (by simp))) ?_ ?_
  · simpa using hplain (by decide)
  · simpa using .lambda (by simpa using hplain (by decide)) (by simpa using hname (by decide))
  · simpa using ⟨hplain (by decide), hplain (by decide)⟩
  · have hcall : Node.IsCallTree ⟨.call (.reference "h" none) [] none, none⟩ :=
      .call (by simp) (by simp) (hname (by decide)) (by simp) (by simp)
    have hmember : Node.IsCallTree
        (.member ⟨.call (.reference "f" none) [⟨none, .reference "x" none⟩] none, none⟩ "g" none) :=
      .member (hplain (by decide)) (.call (by simp) (by simp) (hname (by decide))
        (by simpa using hname (by decide)) (by simp))
    simpa using ⟨happlied hmember (by simp) (by simpa using hname (by decide)), hcall⟩

theorem parses_source_chainedCalls :
    chainedCalls.IsCallTree ∧ chainedCalls.KeepsBoundaries ∧
      Parses "run(task = \x7b it \x7d).then \x7b x, y ->\n    f(x).g \x7b y \x7d\n    h()\n\x7d\n"
        chainedCalls.bare := by
  have htext : chainedCalls.source 4 =
      "run(task = \x7b it \x7d).then \x7b x, y ->\n    f(x).g \x7b y \x7d\n    h()\n\x7d\n" := by
    decide +kernel
  have hkeeps : chainedCalls.KeepsBoundaries := by
    simp [chainedCalls, Node.keepsBoundaries_mk, Construct.losesBoundary, Node.member,
      Node.reference, Construct.endsInArguments, Construct.isLambda]
  rw [← htext]
  have hparses := Node.parses_source_iff_keepsBoundaries chainedCalls_isCallTree 4
  exact ⟨chainedCalls_isCallTree, hkeeps, hparses.2.2 hkeeps⟩

end SwiftToKotlin.Kotlin

namespace SwiftToKotlin.Conversion

open Kotlin CallGrammar

/-- A call that is called with a closure. -/
def appliedCall : Dump.Node :=
  let name (text : String) : Dump.Node := ⟨"declref_expr", [("name", text)], [], none⟩
  ⟨"source_file", [], [⟨"call_expr", [], [⟨"call_expr", [], [name "f", name "a"], none⟩,
    ⟨"closure_expr", [], [⟨"brace_stmt", [], [name "b"], none⟩], none⟩], none⟩], none⟩

/-- The two calls of the dump are written like one call, and nothing is reported. -/
theorem applied_call_merged :
    let name (text : String) : Kotlin.Node := .reference text none
    let closure : Kotlin.Node := ⟨.lambda [] [name "b"], none⟩
    let written : Kotlin.Node :=
      ⟨.call ⟨.call (name "f") [⟨none, name "a"⟩] none, none⟩ [] (some closure), none⟩
    let merged : Kotlin.Node := ⟨.call (name "f") [⟨none, name "a"⟩] (some closure), none⟩
    (ofDump {} appliedCall).kotlin = ⟨.file [written], none⟩ ∧
      (ofDump {} appliedCall).diagnostics = [] ∧ written.IsCallTree ∧
      written.source 4 = "f(a) \x7b b \x7d\n" ∧ Parses "f(a) \x7b b \x7d\n" merged ∧
      ¬Parses "f(a) \x7b b \x7d\n" written.bare := by
  intro name closure written merged
  have hname {text : String} (h : isPlainIdentifier text = true ∧ text ∉ Grammar.reserved) :
      (name text).IsCallTree := .reference (.inl h)
  have hcall : written.IsCallTree := by
    refine .call (by simp) ?_ (.call (by simp) (by simp) (hname (by decide))
      (by simpa using hname (by decide)) (by simp)) (by simp) ?_
    · rintro _ ⟨⟩
      rfl
    · rintro _ ⟨⟩
      exact .lambda (by simp) (by simpa using hname (by decide))
  have htext : written.source 4 = "f(a) \x7b b \x7d\n" := by decide +kernel
  have hmerged : written.joined = merged := by with_unfolding_all rfl
  have hparses : Parses "f(a) \x7b b \x7d\n" merged := by
    rw [← htext, ← hmerged]
    exact hcall.parses_source 4
  refine ⟨by with_unfolding_all rfl, by with_unfolding_all rfl, hcall, htext, hparses, ?_⟩
  intro hbare
  refine hcall.joined_ne_bare rfl ?_
  rw [hmerged]
  exact hparses.unique hbare

end SwiftToKotlin.Conversion
