import SwiftToKotlin.Proofs.Kotlin.FreeNames
import SwiftToKotlin.Proofs.Lowering.Jumps

/-!
# Where a free `it` comes from

An expression is lowered to one that is built around the lowering of its parts and that declares
nothing for them. So the name `it` is free in it exactly if it is free in what becomes of a part, or
if the expression begins with the name itself. Closures are different, and so are calls that end in
a test, which has a parameter of this name.
-/

namespace SwiftToKotlin.Lowering

open Swift (Node Argument Role)
open Kotlin (FreeAmong HandsOn PassesOn)

variable {α β : Type} {context : Context}

/-! ## Visits and their answers -/

/-- A scene in which everything is allowed. -/
def Scene.unrestricted (context : Context) (height : Nat) : Scene where
  context
  below := descend height
  follows := descend_follows stackDiscipline height
  allowed _ _ _ := True
  extensions _ _ := True
  refused _ := True
  left _ := True

theorem Scene.admits_unrestricted (around) :
    (unrestricted context height).Admits (Place.ofSurroundings around) around :=
  ⟨Place.matches_ofSurroundings around, fun _ _ _ => trivial⟩

theorem Scene.plain_unrestricted (node) : (unrestricted context height).frame.Plain node := by
  obtain ⟨construct, range⟩ := node
  cases construct with
  | breakStmt | comment => trivial
  | _ => exact fun _ _ => trivial

/-- The action visits values only, puts no jump around the answers, and its result is related to
them. -/
structure Traces (context : Context) (height : Nat) (made : List Kotlin.Node)
    (action : Descent → Lower α) (parts : α → List Kotlin.Node)
    (R : List Kotlin.Node → α → Prop) : Prop where
  grows : ∀ other : Descent, other.Growing → Keeps Grows (action other)
  traced : ∀ state, ∃ trace,
    (Scene.unrestricted context height).Explains made action parts state trace ∧
      (∀ visit ∈ trace, visit.role = .value) ∧
      HandsOn (made ++ (Scene.unrestricted context height).answers trace)
        (parts ((Scene.unrestricted context height).run action state).1) ∧
      R ((Scene.unrestricted context height).answers trace)
        ((Scene.unrestricted context height).run action state).1

namespace Traces

theorem mono (h : Traces context height made action parts R)
    (hR : ∀ answers a, R answers a → R' answers a) :
    Traces context height made action parts R' where
  grows := h.grows
  traced state := by
    obtain ⟨trace, htrace, hroles, hhanded, hresult⟩ := h.traced state
    exact ⟨trace, htrace, hroles, hhanded, hR _ _ hresult⟩

theorem value (node : Node) :
    Traces context height [] (fun descent => descent.value node) (fun node => [node])
      fun answers node => answers = [node] where
  grows _ hother := hother.value node
  traced state := by
    have hexplains : (Scene.unrestricted context height).Explains []
        (fun descent => descent.value node) (fun node => [node]) state [⟨.value, node, state⟩] :=
      .value (Scene.admits_unrestricted state.surroundings) trivial
    refine ⟨_, hexplains, by simp, .refl _, ?_⟩
    simp [Scene.answers, Scene.outcome, Descent.outcome, Scene.run]

/-- An action that visits nothing. -/
theorem steady {action : Lower α} (h : Keeps (Scene.unrestricted context height).Steady action)
    (hmade : ∀ state, HandsOn made (parts ((action.run context).run state).1))
    (hR : ∀ state, R [] ((action.run context).run state).1) :
    Traces context height made (fun _ => action) parts R where
  grows _ _ := h.mono fun _ _ hsteady => hsteady.grows
  traced state :=
    ⟨[], .steady h ((hmade state).mono fun node _ => Scene.plain_unrestricted node), by simp,
      (List.append_nil made).symm ▸ hmade state, hR state⟩

theorem pure {a : α} (h : HandsOn made (parts a)) (hR : R [] a) :
    Traces context height made (fun _ => Pure.pure a) parts R :=
  .steady (.pure a) (fun _ => h) fun _ => hR

theorem bind {f : α → Descent → Lower β} (h : Traces context height [] action parts R)
    (hf : ∀ a, Traces context height (made ++ parts a) (f a) more fun answers b =>
      ∀ earlier, R earlier a → S (earlier ++ answers) b) :
    Traces context height made (fun descent => action descent >>= fun a => f a descent) more S where
  grows other hother := (h.grows other hother).bind fun a => (hf a).grows other hother
  traced state := by
    obtain ⟨first, hfirst, hroles, hhanded, hR⟩ := h.traced state
    obtain ⟨second, hsecond, hroles', hhanded', hS⟩ :=
      (hf ((Scene.unrestricted context height).run action state).1).traced
        ((Scene.unrestricted context height).run action state).2
    refine ⟨first ++ second, hfirst.bind hsecond fun other => (hf _).grows other, ?_, ?_, ?_⟩
    · exact List.forall_mem_append.2 ⟨hroles, hroles'⟩
    · rw [Scene.answers_append, ← List.append_assoc]
      exact (((Kotlin.BuiltAround.refl made).append hhanded).append (.refl _)).trans hhanded'
    · rw [Scene.answers_append]
      exact hS _ hR

theorem handing (h : Traces context height made action parts R) (hmade : HandsOn others made) :
    Traces context height others action parts R where
  grows := h.grows
  traced state := by
    obtain ⟨trace, htrace, hroles, hhanded, hR⟩ := h.traced state
    exact ⟨trace, htrace.handing (hmade.mono fun node _ => Scene.plain_unrestricted node), hroles,
      (hmade.append (.refl _)).trans hhanded, hR⟩

/-- An action that visits nothing can come first. -/
theorem after {f : α → Descent → Lower β}
    (h : Keeps (Scene.unrestricted context height).Steady action)
    (hf : ∀ a, Traces context height made (f a) more S) :
    Traces context height made (fun descent => action >>= fun a => f a descent) more S where
  grows other hother :=
    (h.mono fun _ _ hsteady => hsteady.grows).bind fun a => (hf a).grows other hother
  traced state := by
    obtain ⟨trace, htrace, hrest⟩ := (hf ((action.run context).run state).1).traced
      ((action.run context).run state).2
    exact ⟨trace, htrace.after h, hrest⟩

end Traces

/-! ## Handing `it` on -/

/-- `it` is free in the result exactly if it is free in the nodes made before or in an answer. -/
def Relays (context : Context) (height : Nat) (made : List Kotlin.Node)
    (action : Descent → Lower α) (parts : α → List Kotlin.Node) : Prop :=
  Traces context height made action parts fun answers a =>
    FreeAmong "it" (parts a) ↔ FreeAmong "it" (made ++ answers)

/-- Unless the node ends in a test, `it` is free in it exactly if the node begins with it or it is
free in an answer. -/
def InheritsIt (answers : List Kotlin.Node) (node : Kotlin.Node) : Prop :=
  node.endsInTest = false →
    (node.isFree "it" = true ↔ node.head? = some "it" ∨ FreeAmong "it" answers)

/-- The action makes a node that inherits its free `it`. -/
abbrev Inherits (context : Context) (height : Nat) (action : Descent → Lower Kotlin.Node) : Prop :=
  Traces context height [] action (fun node => [node]) InheritsIt

/-- The action makes a node that hands `it` on. -/
abbrev RelaysNode (context : Context) (height : Nat) (action : Descent → Lower Kotlin.Node) :
    Prop :=
  Relays context height [] action fun node => [node]

namespace Relays

theorem value (node : Node) :
    RelaysNode context height fun descent => descent.value node := by
  apply (Traces.value node).mono
  rintro answers node rfl
  rfl

theorem pure (h : PassesOn "it" made (parts a)) :
    Relays context height made (fun _ => Pure.pure a) parts :=
  Traces.pure h.toBuiltAround (by rw [List.append_nil, h.free])

theorem after {f : α → Descent → Lower β}
    (h : Keeps (Scene.unrestricted context height).Steady action)
    (hf : ∀ a, Relays context height made (f a) more) :
    Relays context height made (fun descent => action >>= fun a => f a descent) more :=
  Traces.after h hf

theorem bind {f : α → Descent → Lower β} (h : Relays context height [] action parts)
    (hf : ∀ a, Relays context height (made ++ parts a) (f a) more) :
    Relays context height made (fun descent => action descent >>= fun a => f a descent) more := by
  apply Traces.bind h
  intro a
  apply Traces.mono (hf a)
  intro answers b hb earlier ha
  simp only [List.nil_append, Kotlin.freeAmong_append] at ha hb ⊢
  rw [hb, ha, or_assoc]

theorem mapM {f : α → Descent → Lower β} (items : List α)
    (h : ∀ a ∈ items, Relays context height [] (f a) more) :
    Relays context height [] (fun descent => items.mapM fun a => f a descent)
      (List.flatMap more) := by
  induction items with
  | nil => exact .pure (.of_mem_iff (by simp))
  | cons item rest ih =>
    simp only [List.mapM_cons]
    have hrest := ih fun a ha => h a (List.mem_cons_of_mem _ ha)
    exact (h item List.mem_cons_self).bind fun _ => hrest.bind fun _ =>
      .pure (.of_mem_iff (by simp))

theorem nodes {f : α → Descent → Lower Kotlin.Node} (items : List α)
    (h : ∀ a ∈ items, RelaysNode context height (f a)) :
    Relays context height [] (fun descent => items.mapM fun a => f a descent)
      fun nodes => nodes := by
  have hall := Relays.mapM items h
  have hparts : (List.flatMap fun node : Kotlin.Node => [node]) = fun nodes => nodes :=
    funext fun nodes => by simp
  rwa [hparts] at hall

theorem refuse (obstacle : Obstacle) (range) :
    RelaysNode context height fun _ => refuse obstacle range :=
  .after (Scene.steady_report fun _ => trivial) fun _ => .pure (.around rfl (by simp))

theorem kept (node : Node) :
    RelaysNode context height fun descent => descent.kept node := by
  refine (Relays.value node).bind fun _ => .after (keeps_placedStruct node) fun _ => ?_
  split
  · exact .pure (.layer rfl (.around rfl (by simp)))
  · exact .after (Scene.steady_silent (silent_warn _ _)) fun _ => .pure (.refl _)
  · exact .pure (.refl _)

/-- What begins with `it` has it free, so that handing it on is enough. -/
theorem inherits (h : RelaysNode context height action) :
    Inherits context height action := by
  apply Traces.mono h
  intro answers node hfree _
  rw [List.nil_append, Kotlin.freeAmong_cons, or_iff_left Kotlin.freeAmong_nil] at hfree
  constructor
  · intro hnode
    exact .inr (hfree.1 hnode)
  · rintro (hhead | hanswer)
    · exact Kotlin.Node.isFree_of_head? hhead
    · exact hfree.2 hanswer

end Relays

theorem InheritsIt.of_free
    (h : node.endsInTest = false → (node.isFree "it" = true ↔ FreeAmong "it" answers)) :
    InheritsIt answers node := by
  intro htest
  rw [h htest]
  refine ⟨.inr, ?_⟩
  rintro (hhead | hanswer)
  · exact (h htest).1 (Kotlin.Node.isFree_of_head? hhead)
  · exact hanswer

/-! ## Calls -/

variable (name : String) (callee : Node) (arguments : List (Argument Node))
  (range : Option SourceRange)

namespace Call

theorem relays_namedArguments (names) :
    Relays context height [] (fun descent => namedArguments descent names arguments)
      (List.map Kotlin.Argument.value) := by
  induction arguments generalizing names with
  | nil => exact .pure (.of_mem_iff (by simp))
  | cons argument rest ih =>
    exact (Relays.kept argument.value).bind fun _ =>
      (ih names.tail).bind fun _ => .pure (.of_mem_iff (by simp))

/-- The node is a call of the callee: it begins alike, and `it` is free in it if it is free in the
callee or in an answer. -/
structure CallsWith (callee : Kotlin.Node) (answers : List Kotlin.Node) (node : Kotlin.Node) :
    Prop where
  head : node.head? = callee.head?
  free : node.endsInTest = false →
    (node.isFree "it" = true ↔ callee.isFree "it" = true ∨ FreeAmong "it" answers)

theorem callsWith_call {callee : Kotlin.Node} {range : Option SourceRange}
    (h : FreeAmong "it" (args.map Kotlin.Argument.value ++ trailing.toList) ↔
      FreeAmong "it" answers) :
    CallsWith callee answers ⟨.call callee args trailing, range⟩ where
  head := by
    rfl
  free htest := by
    have hopen : trailing.any (Kotlin.isTest callee) = false := by
      cases trailing with
      | none => rfl
      | some lambda => exact htest
    rw [Kotlin.Node.isFree_call hopen, ← h]
    simp

theorem traces_withArguments (callee names) :
    Traces context height [callee]
      (fun descent => withArguments descent callee arguments names range) (fun node => [node])
      (CallsWith callee) := by
  unfold withArguments
  dsimp only
  split
  · next last hlast =>
    split
    · apply (Traces.value last.value).bind
      intro trailing
      apply Traces.bind (relays_namedArguments arguments.dropLast _)
      intro args
      refine .pure (.around rfl (by simp [or_comm])) ?_
      rintro second hsecond first rfl
      apply callsWith_call
      simp [hsecond, or_comm]
    · apply Traces.bind (relays_namedArguments arguments _)
      intro args
      refine .pure (.around rfl (by simp)) ?_
      intro answers hanswers
      apply callsWith_call
      simpa using hanswers
  · exact .pure (.around rfl (by simp)) (callsWith_call (by simp))

/-- A call of something that begins with its only name. -/
theorem inherits_withArguments {callee : Kotlin.Node}
    (h : callee.isFree "it" = true ↔ callee.head? = some "it") (hmade : HandsOn [] [callee])
    (names) :
    Inherits context height fun descent => withArguments descent callee arguments names range := by
  apply ((traces_withArguments arguments range callee names).handing hmade).mono
  intro answers node hcall htest
  rw [hcall.free htest, hcall.head, h]

theorem relays_print :
    RelaysNode context height fun descent => print descent arguments range := by
  refine .after (Keeps.forM _ (keeps_warnOfDropped fun _ _ =>
    Scene.steady_silent (silent_warn _ _))) fun _ => ?_
  apply (Relays.nodes _ fun node _ => Relays.value node).bind
  intro values
  apply Relays.pure
  have hname : (if arguments.any suppressesLineEnd then "print" else "println") ≠ "it" := by
    split <;> decide
  have hfunction := PassesOn.reference hname range
  rcases values with _ | ⟨value, _ | ⟨next, rest⟩⟩
  · exact hfunction.call _ _
  · exact hfunction.call _ _
  · have htemplate : PassesOn "it" (value :: next :: rest)
        [⟨.template (spacedParts (value :: next :: rest)), range⟩] :=
      .around rfl (by simp)
    exact htemplate.trans (hfunction.call _ _)

theorem passesOn_method (receiver) (safe : Bool) :
    PassesOn "it" [receiver] [method receiver name safe range] :=
  .layer rfl (.around rfl (by simp))

theorem handsOn_reference : HandsOn [] [.reference name range] :=
  .around rfl (by simp)

theorem handsOn_rawValueLookup (enum : String) (value) :
    HandsOn [value] [rawValueLookup enum value range] := by
  have hentries : HandsOn [] [.member (method (.reference (identifier enum) range) "values" false
      range) "firstOrNull" range] :=
    .layer rfl (.layer rfl (.layer rfl (handsOn_reference _ _)))
  have hraw : HandsOn [] [.member (.reference "it" range) "rawValue" range] :=
    .layer rfl (handsOn_reference _ _)
  have htest : HandsOn [value] [⟨.lambda [] [.binary .eq (.member (.reference "it" range)
      "rawValue" range) value range], range⟩] :=
    .layer rfl (.layer rfl (hraw.append (.refl [value])))
  exact (hentries.append htest).layer rfl

theorem inherits_construction :
    Inherits context height fun descent => construction descent name callee arguments range := by
  have hcall (names : Option (List String)) : Inherits context height fun descent =>
      withArguments descent (.reference (identifier name) callee.range) arguments names range :=
    inherits_withArguments arguments range
      (Kotlin.Node.isFree_reference_iff_head? _ _) (handsOn_reference _ _) names
  refine .after keeps_types fun _ => ?_
  dsimp only
  split
  · split
    · next argument _ _ =>
      apply (Traces.value argument.value).bind
      intro value
      refine .pure (handsOn_rawValueLookup _ _ _) ?_
      intro answers _ htest
      cases htest
    · exact hcall _
  · exact hcall _

/-- A case begins with the name of its enumeration, which is its only one. -/
theorem traces_caseReference (enum case : String) :
    Traces context height [] (fun _ => caseReference enum case range) (fun node => [node])
      fun answers node => answers = [] ∧ (node.isFree "it" = true ↔ node.head? = some "it") := by
  refine .after (keeps_types.bind fun _ => Scene.steady_nameCase _ _ _) fun name => ?_
  have hhead : (Kotlin.Node.reference (identifier enum) range).isFree "it" = true ↔
      (Kotlin.Node.reference (identifier enum) range).head? = some "it" :=
    Kotlin.Node.isFree_reference_iff_head? (identifier enum) range
  have hpath := Kotlin.Node.isFree_member_iff_head? hhead name range
  exact .pure (.layer rfl (handsOn_reference _ _)) ⟨rfl, hpath⟩

theorem inherits_caseConstruction (enum case : String) :
    Inherits context height fun descent =>
      caseConstruction descent enum case callee arguments range := by
  refine .after keeps_types fun _ => ?_
  apply (traces_caseReference callee.range enum case).bind
  intro made
  apply (traces_withArguments arguments range made _).mono
  rintro answers node hcall earlier ⟨rfl, hpath⟩ htest
  rw [hcall.free htest, hcall.head, hpath, List.nil_append]

theorem relays_converted (convert read : String) (value : Node) :
    RelaysNode context height fun descent => converted descent convert read value range :=
  .after (keeps_isText value) fun _ => (Relays.value value).bind fun _ =>
    .pure (passesOn_method _ _ _ _)

/-- A call of something that is made from a value and adds no name to it. -/
theorem inherits_callOf (target : Node) {callee : Kotlin.Node → Kotlin.Node}
    (h : ∀ value, PassesOn "it" [value] [callee value]) (names) :
    Inherits context height fun descent => descent.value target >>= fun value =>
      withArguments descent (callee value) arguments names range := by
  apply (Traces.value target).bind
  intro value
  have hcallee : (callee value).isFree "it" = true ↔ value.isFree "it" = true := by
    simpa using (h value).free
  apply ((traces_withArguments arguments range (callee value) names).handing
    (h value).toBuiltAround).mono
  rintro answers node hcall earlier rfl
  apply InheritsIt.of_free
  intro htest
  rw [hcall.free htest, hcallee]
  simp

theorem inherits_knownMethod (form) (base : Node) :
    Inherits context height fun descent => knownMethod descent form base arguments range := by
  have hcallee (value : Kotlin.Node) :
      PassesOn "it" [value] [⟨.member value form.name (chainTarget base).2, range⟩] :=
    .around rfl (by simp)
  unfold knownMethod
  dsimp only
  split
  · apply Relays.inherits
    apply (Relays.value (chainTarget base).1).bind
    intro receiver
    apply (Relays.nodes _ fun node _ => Relays.kept node).bind
    intro values
    exact .pure ((hcallee receiver).call values range)
  · exact inherits_callOf _ range (chainTarget base).1 hcallee none

theorem inherits_plain :
    Inherits context height fun descent => plain descent callee arguments range :=
  inherits_callOf arguments range callee (fun value => .refl [value]) none

theorem inherits_ofName :
    Inherits context height fun descent => ofName descent name callee arguments range := by
  refine .after keeps_types fun _ => ?_
  split
  · exact inherits_construction name callee arguments range
  · split
    · exact (relays_print arguments range).inherits
    · split
      · exact (relays_converted range _ _ _).inherits
      · exact inherits_plain callee _ range

theorem inherits_ofMember (base : Node) :
    Inherits context height fun descent => ofMember descent base name callee arguments range := by
  refine .after (keeps_casePattern callee) fun _ => ?_
  split
  · exact inherits_caseConstruction callee arguments range _ _
  · refine .after (keeps_isText _) fun _ => ?_
    split
    · exact inherits_knownMethod arguments range _ base
    · exact inherits_plain callee arguments range

theorem inherits_ofImplicitMember :
    Inherits context height fun descent => ofImplicitMember descent callee arguments range := by
  refine .after (keeps_casePattern callee) fun _ => ?_
  split
  · exact inherits_caseConstruction callee arguments range _ _
  · exact inherits_plain callee arguments range

theorem inherits_lower :
    Inherits context height fun descent => Call.lower descent callee arguments range := by
  unfold Call.lower
  split
  · exact inherits_ofName _ callee arguments range
  · exact inherits_ofMember _ callee arguments range _
  · exact inherits_ofImplicitMember callee arguments range
  · exact inherits_plain callee arguments range

end Call

/-! ## Expressions -/

namespace Expression

theorem relays_templatePart (segment : Node) :
    Relays context height [] (fun descent => templatePart descent segment)
      Kotlin.TemplatePart.parts := by
  unfold templatePart
  split
  · exact .pure (.of_mem_iff (by simp [Kotlin.TemplatePart.parts]))
  · exact (Relays.value segment).bind fun _ =>
      .pure (.of_mem_iff (by simp [Kotlin.TemplatePart.parts]))

theorem inherits_reference : Inherits context height fun _ => reference name range := by
  refine .steady (Scene.steady_reference name range) (fun state => ?_) fun state => ?_
  · obtain ⟨written, _, hrun⟩ := exists_run_reference name range context state
    rw [hrun]
    exact Call.handsOn_reference written range
  · obtain ⟨written, _, hrun⟩ := exists_run_reference name range context state
    rw [hrun]
    intro _
    rw [Kotlin.Node.isFree_reference_iff_head?]
    simp

theorem relays_binary (operator : String) (lhs rhs : Node) :
    RelaysNode context height fun descent => binary descent operator lhs rhs range := by
  unfold binary
  split
  · exact .refuse _ _
  · split
    · exact (Relays.value lhs).bind fun _ => (Relays.value rhs).bind fun _ =>
        .pure (.around rfl (by simp))
    · exact .refuse _ _

theorem relays_prefixUnary (operator : String) (operand : Node) :
    RelaysNode context height fun descent => prefixUnary descent operator operand range := by
  unfold prefixUnary
  split
  · exact (Relays.value operand).bind fun _ => .pure (Call.passesOn_method _ _ _ _)
  · split
    · exact (Relays.value operand).bind fun _ => .pure (.around rfl (by simp))
    · exact .refuse _ _

/-- A call of a function of the library with values made by visits. -/
theorem relays_functionCall {name : String} (h : name ≠ "it") {α : Type}
    {f : α → Descent → Lower Kotlin.Node} (items : List α)
    (hf : ∀ item ∈ items, RelaysNode context height (f item)) :
    RelaysNode context height fun descent => do
      return Kotlin.Node.call (.reference name range) (← items.mapM fun item => f item descent)
        range :=
  (Relays.nodes items hf).bind fun values => .pure ((PassesOn.reference h range).call values range)

theorem relays_tuple (items) :
    RelaysNode context height fun descent => tuple descent items range := by
  unfold tuple
  split
  · exact .pure (.reference (by decide) range)
  · exact .value _
  · exact relays_functionCall range (by decide) _ (fun node _ => .kept node)
  · exact relays_functionCall range (by decide) _ (fun node _ => .kept node)
  · exact .refuse _ _

theorem relays_dictionaryEntry (entry) :
    RelaysNode context height fun descent => dictionaryEntry descent range entry :=
  (Relays.value entry.1).bind fun _ => (Relays.kept entry.2).bind fun _ =>
    .pure (.around rfl (by simp))

theorem relays_subscript (base index : Node) :
    RelaysNode context height fun descent => subscript descent base index range := by
  apply (Relays.value index).bind
  intro position
  apply (Relays.value (chainTarget base).1).bind
  intro receiver
  split
  · have hmember : PassesOn "it" [receiver] [⟨.member receiver "get" true, range⟩] :=
      .around rfl (by simp)
    exact .pure (.trans (.of_mem_iff (by simp [or_comm])) (hmember.call [position] range))
  · exact .pure (.around rfl (by simp [or_comm]))

theorem passesOn_property (receiver type) (safe : Bool) :
    PassesOn "it" [receiver] [property receiver type name safe range] := by
  have hplain (name : String) : PassesOn "it" [receiver] [⟨.member receiver name safe, range⟩] :=
    .around rfl (by simp)
  have hmethod (name : String) := Call.passesOn_method name range receiver safe
  unfold property
  dsimp only
  split
  · exact hplain _
  · exact hmethod _
  · split
    · exact hmethod _
    · exact hplain _
  · split
    · exact hmethod _
    · exact hplain _
  · exact hplain _

theorem inherits_caseReference (enum case : String) :
    Inherits context height fun _ => caseReference enum case range := by
  apply (Call.traces_caseReference range enum case).mono
  rintro answers node ⟨rfl, hpath⟩ _
  simp [hpath]

theorem inherits_member (base : Node) :
    Inherits context height fun descent => member descent base name range := by
  refine .after keeps_types fun _ => ?_
  split
  · exact inherits_caseReference range _ name
  · apply Relays.inherits
    exact .after (keeps_typeOf _) fun _ => (Relays.value (chainTarget base).1).bind fun _ =>
      .pure (passesOn_property _ _ _ _ _)

theorem inherits_implicitMember (ty) :
    Inherits context height fun _ => implicitMember name ty range := by
  refine .after keeps_types fun _ => .after keeps_surroundings fun _ => ?_
  split
  · exact inherits_caseReference range _ name
  · split
    · next owner _ =>
      refine .pure (.layer rfl (Call.handsOn_reference _ _)) fun _ => ?_
      rw [Kotlin.Node.isFree_member_iff_head? (Kotlin.Node.isFree_reference_iff_head? _ _)]
      simp
    · exact (Relays.refuse _ _).inherits

theorem passesOn_attempt (value) :
    PassesOn "it" [value]
      [⟨.call (.reference "runCatching" range) [] (some ⟨.lambda [] [value], range⟩), range⟩] := by
  have hlambda : PassesOn "it" [value] [⟨.lambda [] [value], range⟩] :=
    ⟨.around rfl (by simp), by simp [Kotlin.Node.isFree_thunk]⟩
  exact .layer rfl ((PassesOn.reference (by decide) range).append hlambda)

theorem relays_wrapped (form) (inner : Node) :
    RelaysNode context height fun descent => wrapped descent form inner range := by
  apply (Relays.value inner).bind
  intro value
  split
  · exact .pure (.around rfl (by simp))
  · exact .pure ((passesOn_attempt range value).trans (Call.passesOn_method _ _ _ _))
  · exact .pure (.refl _)

theorem relays_ternary (test thenValue elseValue : Node) :
    RelaysNode context height fun descent => ternary descent test thenValue elseValue range :=
  (Relays.value test).bind fun _ => (Relays.kept thenValue).bind fun _ =>
    (Relays.kept elseValue).bind fun _ => .pure (.around rfl (by simp))

/-- Every expression but for a closure inherits its free `it`. -/
theorem inherits_lower (node : Node) (h : Call.isClosure node = false) :
    Inherits context height fun descent => Expression.lower descent node := by
  unfold Expression.lower
  split
  · exact Relays.inherits (.pure (.around rfl (by simp)))
  · next segments _ =>
    apply Relays.inherits
    exact (Relays.mapM segments fun segment _ => relays_templatePart segment).bind fun _ =>
      .pure (.around rfl (by simp))
  · exact inherits_reference _ _
  · exact (relays_binary _ _ _ _).inherits
  · exact (relays_prefixUnary _ _ _).inherits
  · exact (Relays.refuse _ _).inherits
  · exact Call.inherits_lower _ _ _
  · exact inherits_member _ _ _
  · exact inherits_implicitMember _ _ _
  · exact (relays_subscript _ _ _).inherits
  · exact (relays_functionCall _ (by decide) _ (fun item _ => .kept item)).inherits
  · next entries _ =>
    apply Relays.inherits
    exact relays_functionCall _ (by decide) entries (fun entry _ => relays_dictionaryEntry _ entry)
  · exact (relays_tuple _ _).inherits
  · next hc => simp [Call.isClosure, hc] at h
  · exact (relays_ternary _ _ _ _).inherits
  · exact (relays_wrapped _ _ _).inherits
  · next value _ _ =>
    apply Relays.inherits
    exact (Relays.value value).bind fun _ =>
      .after (Scene.steady_silent (silent_lowerTy _ _)) fun _ => .pure (.around rfl (by simp))
  · exact Relays.inherits (.pure (.around rfl (by simp)))
  · exact Relays.inherits (.pure (.around rfl (by simp)))
  · exact (Relays.refuse _ _).inherits

end Expression

end SwiftToKotlin.Lowering
