import SwiftToKotlin.Proofs.Lowering.FreeNames

/-!
# Raw values under the parameter of a test

An enumeration is searched for a raw value with a test that calls its parameter `it`, and the value
stands inside of the test. Any other name means there what it means outside, but a free `it` of the
value becomes the parameter. Anonymous parameters of closures are called `it` as well, so this
happens. It happens exactly if lowering the value comes to something that names `it` before it comes
to a closure or to another test.
-/

namespace SwiftToKotlin

namespace Lowering

open Swift (Node Argument)
open Kotlin (FreeAmong)

/-! ## Expressions that name `it` -/

/-- What an expression is lowered to in a state. -/
def loweredValue (context : Context) (height : Nat) (node : Node) (state : State) : Kotlin.Node :=
  ((((descend height).value node).run context).run state).1

/-- The expression may have a parameter of its own: it is a closure, or it becomes a test. -/
def HasParameters (context : Context) (height : Nat) (node : Node) (state : State) : Prop :=
  Call.isClosure node = true ∨ (loweredValue context height node state).endsInTest = true

/-- The expression becomes one that begins with `it`, or one with parameters in which `it` is free,
or it has no parameters and lowering it comes to such an expression. -/
inductive NamesIt (context : Context) : Nat → Node → State → Prop
  | head (h : (loweredValue context height node state).head? = some "it") :
      NamesIt context height node state
  | inside (hparameters : HasParameters context height node state)
      (h : (loweredValue context height node state).isFree "it" = true) :
      NamesIt context height node state
  | part {inner : State} (hparameters : ¬ HasParameters context (height + 1) node state)
      (hasks : Asks context (descend height) ⟨.value, node, state⟩ ⟨.value, part, inner⟩)
      (h : NamesIt context height part inner) : NamesIt context (height + 1) node state

theorem freeAmong_answers_iff (h : ∀ visit ∈ trace, visit.role = .value) :
    FreeAmong "it" ((Scene.unrestricted context height).answers trace) ↔
      ∃ part inner, (⟨.value, part, inner⟩ : Visit) ∈ trace ∧
        (loweredValue context height part inner).isFree "it" = true := by
  constructor
  · rintro ⟨made, hmade, hfree⟩
    obtain ⟨⟨role, part, inner⟩, hvisit, hmade⟩ := List.mem_flatMap.1 hmade
    obtain rfl : role = .value := h _ hvisit
    obtain rfl := List.mem_singleton.1 hmade
    exact ⟨part, inner, hvisit, hfree⟩
  · rintro ⟨part, inner, hvisit, hfree⟩
    exact ⟨_, List.mem_flatMap.2 ⟨_, hvisit, List.mem_singleton_self _⟩, hfree⟩

/-- One step of lowering: `it` is free in what an expression becomes if that begins with it or if it
is free in what a part becomes. -/
theorem isFree_loweredValue_succ (h : ¬ HasParameters context (height + 1) node state) :
    (loweredValue context (height + 1) node state).isFree "it" = true ↔
      (loweredValue context (height + 1) node state).head? = some "it" ∨
      ∃ part inner, Asks context (descend height) ⟨.value, node, state⟩ ⟨.value, part, inner⟩ ∧
        (loweredValue context height part inner).isFree "it" = true := by
  rw [HasParameters, not_or, Bool.not_eq_true, Bool.not_eq_true] at h
  have hnode : Inherits context height fun descent => Expression.lower descent node :=
    Expression.inherits_lower node h.1
  obtain ⟨trace, htrace, hroles, -, hinherits⟩ := hnode.traced state
  have hasks (visit : Visit) :
      Asks context (descend height) ⟨.value, node, state⟩ visit ↔ visit ∈ trace := by
    have hanswered : AnsweredBy (Scene.unrestricted context height).context ⟨.value, node, state⟩
        (fun descent => Expression.lower descent node) fun node => [node] := fun _ => rfl
    exact asks_iff_of_explains hanswered htrace visit
  simp only [hasks]
  rw [← freeAmong_answers_iff hroles]
  exact hinherits h.2

/-- The expressions that name `it` are those that become one in which it is free. -/
theorem isFree_loweredValue_iff :
    (loweredValue context height node state).isFree "it" = true ↔
      NamesIt context height node state := by
  constructor
  · intro hfree
    induction height generalizing node state with
    | zero =>
      have hname := (Kotlin.Node.isFree_reference "" node.range).1 hfree
      exact absurd hname (by decide)
    | succ height ih =>
      by_cases hparameters : HasParameters context (height + 1) node state
      · exact .inside hparameters hfree
      · have hstep := (isFree_loweredValue_succ hparameters).1 hfree
        rcases hstep with hhead | ⟨part, inner, hasks, hpart⟩
        · exact .head hhead
        · exact .part hparameters hasks (ih hpart)
  · intro hnames
    induction hnames with
    | head h => exact Kotlin.Node.isFree_of_head? h
    | inside _ h => exact h
    | part hparameters hasks _ ih =>
      exact (isFree_loweredValue_succ hparameters).2 (.inr ⟨_, _, hasks, ih⟩)

/-- In a closure the first anonymous parameter is called `it`. -/
theorem namesIt_anonymous (hc : node.construct = .reference name ty)
    (hname : anonymousIndex? name = some 0) (hdepth : 0 < state.surroundings.closureDepth) :
    NamesIt context (height + 1) node state := by
  obtain ⟨⟨scope, closureDepth, expectedEnum, inCase⟩, locals, anonymousMax, cases, diagnostics⟩ :=
    state
  obtain ⟨depth, rfl⟩ := Nat.exists_eq_add_one_of_ne_zero (Nat.ne_of_gt hdepth)
  apply NamesIt.head
  change (((Expression.lower (descend height) node).run context).run _).1.head? = some "it"
  rw [Expression.lower, hc]
  dsimp only
  rw [Expression.reference, hname]
  rfl

/-! ## The lookup -/

theorem Call.run_construction_of_lookup
    (h : isRawValueLookup context.types (context.types.resolve name) [argument] = true) :
    ((construction descent name callee [argument] range).run context).run state =
      (rawValueLookup (context.types.resolve name)
          (((descent.value argument.value).run context).run state).1 range,
        (((descent.value argument.value).run context).run state).2) := by
  change StateT.run ((if isRawValueLookup context.types (context.types.resolve name) [argument]
    then _ else _ : Lower Kotlin.Node) context) state = _
  rw [h]
  rfl

theorem Call.run_ofName_of_isType (h : context.types.isType name = true) :
    ((ofName descent name callee arguments range).run context).run state =
      ((construction descent name callee arguments range).run context).run state := by
  change StateT.run ((if context.types.isType name then _ else _ : Lower Kotlin.Node) context)
    state = _
  rw [h]
  rfl

theorem loweredValue_lookup (hc : call.construct = .call callee [argument])
    (hcallee : callee.construct = .reference name ty) (htype : context.types.isType name = true)
    (hlookup : Call.isRawValueLookup context.types (context.types.resolve name) [argument] = true) :
    loweredValue context (height + 1) call state =
      Call.rawValueLookup (context.types.resolve name)
        (loweredValue context height argument.value state) call.range := by
  have hlower : (descend (height + 1)).value call =
      Call.ofName (descend height) name callee [argument] call.range := by
    change Expression.lower (descend height) call = _
    rw [Expression.lower, hc]
    dsimp only
    rw [Call.lower, hcallee]
  rw [loweredValue, hlower, Call.run_ofName_of_isType htype,
    Call.run_construction_of_lookup hlookup]
  rfl

/-- A name is free in the lookup if it is that of the enumeration or free in the value, unless it is
that of the parameter. -/
theorem isFree_rawValueLookup (used enum : String) (value range) :
    (Call.rawValueLookup enum value range).isFree used = true ↔
      identifier enum = used ∨ used ≠ "it" ∧ value.isFree used = true := by
  have hlayers : (Call.rawValueLookup enum value range).isFree used = true ↔
      identifier enum = used ∨ ("it" = used ∨ value.isFree used = true) ∧ used ≠ "it" := by
    simp [Call.rawValueLookup, Call.method, Kotlin.Node.call, Kotlin.Node.member,
      Kotlin.Node.reference, Kotlin.Node.binary, Kotlin.Node.isFree_mk, Kotlin.Construct.map,
      Kotlin.Construct.isFree, Kotlin.isFreeInBlock, Kotlin.isTest]
  rw [hlayers, and_comm]
  by_cases h : used = "it"
  · simp [h]
  · simp [Ne.symm h]

/-- The call of an enumeration with a raw value is lowered to a lookup around the value. The names
that are free in the value mean the same in the lookup except for `it`, which is the parameter
there: it is free in the value exactly if the argument names it. -/
theorem rawValueLookup_captures_iff (context : Context) (height : Nat) (state : State)
    {call callee : Node} {name : String} {ty : Option Swift.Ty} {argument : Argument Node}
    (hc : call.construct = .call callee [argument])
    (hcallee : callee.construct = .reference name ty) (htype : context.types.isType name = true)
    (hlookup : Call.isRawValueLookup context.types (context.types.resolve name) [argument] = true) :
    ∃ value lookup, value = loweredValue context height argument.value state ∧
      lookup = Call.rawValueLookup (context.types.resolve name) value call.range ∧
      loweredValue context (height + 1) call state = lookup ∧
      (∀ used, lookup.isFree used = true ↔
        identifier (context.types.resolve name) = used ∨ used ≠ "it" ∧ value.isFree used = true) ∧
      (value.isFree "it" = true ↔ NamesIt context height argument.value state) :=
  ⟨_, _, rfl, rfl, loweredValue_lookup hc hcallee htype hlookup,
    fun used => isFree_rawValueLookup used _ _ _, isFree_loweredValue_iff⟩

/-- The call `E(rawValue: value)`. -/
def lookupOf (value : Node) : Node :=
  ⟨.call ⟨.reference "E" none, none⟩ [⟨some "rawValue", value⟩], none⟩

/-- A file with the enum `enum E: Int { case a }`. -/
def besideEnum : Context :=
  .ofRoot [] ⟨.typeDecl .enumType ⟨"E", ["Int"], [⟨.enumCase ⟨"a", [], none⟩, none⟩]⟩, none⟩

def anonymousUse : Node :=
  ⟨.reference "$0" none, none⟩

/-- The call `f { $0 }`. -/
def closureArgument : Node :=
  ⟨.call ⟨.reference "f" none, none⟩ [⟨none, ⟨.closure [] [anonymousUse], none⟩⟩], none⟩

/-- Inside of a closure its parameter is captured in `E(rawValue: $0)`, while nothing is captured in
`E(rawValue: f { $0 })`. -/
theorem anonymousUse_captured :
    (∃ value lookup, lookup = Call.rawValueLookup "E" value none ∧
        loweredValue besideEnum 2 (lookupOf anonymousUse)
          { surroundings := { closureDepth := 1 } } = lookup ∧
        value.isFree "it" = true ∧ lookup.isFree "it" = false) ∧
      ¬ NamesIt besideEnum 3 closureArgument { surroundings := { closureDepth := 1 } } := by
  have hc (value : Node) : (lookupOf value).construct =
      .call ⟨.reference "E" none, none⟩ [⟨some "rawValue", value⟩] := rfl
  have htype : besideEnum.types.isType "E" = true := by with_unfolding_all rfl
  have hresolve : besideEnum.types.resolve "E" = "E" := by with_unfolding_all rfl
  have hlookup (value : Node) : Call.isRawValueLookup besideEnum.types
      (besideEnum.types.resolve "E") [⟨some "rawValue", value⟩] = true := by
    with_unfolding_all rfl
  constructor
  · obtain ⟨value, lookup, -, hshape, hlowered, hfree, hnames⟩ :=
      rawValueLookup_captures_iff besideEnum 1 { surroundings := { closureDepth := 1 } }
        (hc anonymousUse) rfl htype (hlookup _)
    rw [hresolve] at hshape hfree
    refine ⟨value, lookup, hshape, hlowered, ?_, ?_⟩
    · apply hnames.2
      exact namesIt_anonymous rfl (by decide) (by decide)
    · rw [Bool.eq_false_iff]
      intro htest
      rcases (hfree "it").1 htest with hname | ⟨hname, -⟩
      · exact absurd hname (by decide)
      · exact hname rfl
  · obtain ⟨value, lookup, rfl, -, -, -, hnames⟩ :=
      rawValueLookup_captures_iff besideEnum 3 { surroundings := { closureDepth := 1 } }
        (hc closureArgument) rfl htype (hlookup _)
    rw [← hnames]
    with_unfolding_all decide

end Lowering

namespace Conversion

/-- The file `enum E: Int { case a }` with `let f = { E(rawValue: $0) }`. -/
def lookupInClosure : Dump.Node :=
  let lookup : Dump.Node :=
    ⟨"call_expr", [],
      [⟨"declref_expr", [("name", "E")], [], none⟩,
        ⟨"argument", [("label", "rawValue")],
          [⟨"declref_expr", [("name", "$0")], [], none⟩], none⟩], none⟩
  ⟨"source_file", [],
    [⟨"enum_decl", [("name", "E"), ("inherits", "Int")],
        [⟨"enum_element_decl", [("name", "a")], [], none⟩], none⟩,
      ⟨"var_decl", [("name", "f"), ("let", "")],
        [⟨"closure_expr", [], [⟨"brace_stmt", [], [lookup], none⟩], none⟩], none⟩], none⟩

/-- The parameter of the closure is written inside of the test, under the name of its parameter. -/
theorem parameter_captured : ∃ enum,
    (ofDump {} lookupInClosure).kotlin =
        ⟨.file [enum, ⟨.property
          { name := "f", binding := .val
            init := some ⟨.lambda ["it"]
              [Lowering.Call.rawValueLookup "E" (.reference "it" none) none], none⟩ }, none⟩],
          none⟩ ∧
      (ofDump {} lookupInClosure).diagnostics = [] := by
  with_unfolding_all exact ⟨_, rfl, rfl⟩

end Conversion

end SwiftToKotlin
