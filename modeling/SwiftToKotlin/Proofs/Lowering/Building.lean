import SwiftToKotlin.Proofs.Lowering.Accounting
import SwiftToKotlin.Proofs.Lowering.Naming
import SwiftToKotlin.Proofs.Lowering.Visits

/-!
# How lowering is put together

The lowering of a construct is made of few things: it lowers parts, takes steps that leave no trace
in the result, refuses what Kotlin lacks, and puts layers around the nodes it has made. Here it is
said once what it may do, as rules by which actions are built. That every construct is lowered by
these rules is proved once as well, and whatever the rules keep is then kept by lowering.
-/

namespace SwiftToKotlin

/-- Whether a diagnostic is due to the place of a construct. -/
def Diagnostic.isPlaced : Diagnostic → Bool
  | ⟨.noEquivalent obstacle, _⟩ => obstacle.isPlaced
  | _ => false

namespace Lowering

open Swift (Node Role)

/-! ## Silent actions -/

/-- The action only looks at the state and reports what leaves no comment and is not due to a
place: it keeps whatever such reports keep. -/
def Silent {α : Type} (action : Lower α) : Prop :=
  ∀ (R : State → State → Prop) [IsPreorder State R],
    (∀ cause range, Diagnostic.refusal? ⟨cause, range⟩ = none →
      Diagnostic.isPlaced ⟨cause, range⟩ = false → Keeps R (report cause range)) →
    Keeps R action

theorem silent_warn (mismatch : Mismatch) (range) : Silent (warn mismatch range) :=
  fun _ _ h => h _ _ rfl rfl

theorem silent_lowerTy (ty : Swift.Ty) (range) : Silent (lowerTy ty range) := by
  intro R _ h
  unfold lowerTy
  split
  · exact .pure _
  · exact (h _ _ rfl rfl).bind fun _ => .pure _

/-- A reference is written for a reference, and in a closure it may use an anonymous parameter. -/
theorem exists_run_reference (name : String) (range context state) : ∃ written anonymousMax,
      ((Expression.reference name range).run context).run state =
        (.reference written range, { state with anonymousMax }) := by
  unfold Expression.reference
  cases anonymousIndex? name with
  | none => exact ⟨_, _, rfl⟩
  | some index =>
    rcases state with ⟨⟨_, _ | depth, _, _⟩, _, _, _, _⟩
    · exact ⟨_, _, rfl⟩
    · exact ⟨_, _, rfl⟩

/-! ## Frames -/

/-- What is fixed while one construct is lowered: which parts may be lowered in which places, the
extensions whose members they may be, what may be refused or left due to the place of the construct,
the comments that placeholders have, and which names may be declared for those of the source. -/
structure Frame where
  allowed : Place → Role → Node → Prop
  extensions : Kotlin.Ty → String → Prop
  refused : Diagnostic → Prop
  left : Option SourceRange → Prop
  noted : Kotlin.Note → Prop
  source : String → Prop
  given : String → Prop
  naming : Naming source given

namespace Frame

/-- The frame in which nothing is forbidden. -/
def free : Frame where
  allowed _ _ _ := True
  extensions _ _ := True
  refused _ := True
  left _ := True
  noted _ := True
  source _ := True
  given _ := True
  naming := ⟨fun _ => trivial, fun _ _ => trivial, fun _ => trivial, fun _ _ => trivial,
    fun _ _ => trivial⟩

/-- A layer that may be put around nodes, or a leaf. -/
@[simp] def Plain (frame : Frame) : Kotlin.Node → Prop
  | ⟨.breakStmt, range⟩ => frame.left range
  | ⟨.comment text, range⟩ => frame.noted (text, range)
  | ⟨construct, _⟩ => ∀ name ∈ construct.names, frame.given name

/-- The nodes are those made before, with plain layers around them. -/
abbrev Around (frame : Frame) (made nodes : List Kotlin.Node) : Prop :=
  Kotlin.BuiltAround frame.Plain made nodes

/-- The nodes may all be lowered. -/
abbrev AllAllowed (frame : Frame) (place : Place) (role : Role) (nodes : List Node) : Prop :=
  ∀ node ∈ nodes, frame.allowed place role node

section Layers

variable {frame : Frame}

theorem around_reference (name : String) : frame.Around [] [.reference name range] :=
  .around (by simp) (by simp)

theorem around_literal (value) : frame.Around [] [.literal value range] :=
  .around (by simp) (by simp)

theorem around_call (h : frame.Around made [callee]) (args) :
    frame.Around (made ++ args) [.call callee args range] := by
  refine .layer (by simp) ?_
  simpa [Function.comp_def] using h.append (.refl args)

theorem around_binary (op) (h : frame.Around made [lhs]) (h' : frame.Around others [rhs]) :
    frame.Around (made ++ others) [.binary op lhs rhs range] :=
  .layer (by simp) (h.append h')

theorem around_member (h : frame.Around made [base]) (name : String) (safe : Bool) :
    frame.Around made [⟨.member base name safe, range⟩] :=
  .layer (by simp) h

end Layers

/-! ## Rules -/

/-- By the rules the action makes its result at the place: from the nodes `made` before and from
what it is given for parts come the `parts` of the result, of which something may be `known`. What
is built as a value declares nothing outside of a block of its own. -/
inductive Builds (frame : Frame) : {α : Type} → Role → Place → List Kotlin.Node →
    (Descent → Lower α) → (α → List Kotlin.Node) → (α → Prop) → Prop
  | value (h : frame.allowed place .value node) :
    Builds frame role place [] (fun descent => descent.value node) (fun node => [node])
      fun _ => True
  | statement (h : frame.allowed place .statement node) :
    Builds frame .statement place [] (fun descent => descent.statement node) (fun nodes => nodes)
      fun _ => True
  | given {a : α} (h : frame.Around made (parts a)) (hknown : known a) :
    Builds frame role place made (fun _ => Pure.pure a) parts known
  /-- The nodes that a first action makes are handed on to the second. -/
  | knowing {f : α → Descent → Lower β} (h : Builds frame role place [] action parts known)
      (hf : ∀ a, known a → Builds frame role place (made ++ parts a) (f a) more result) :
    Builds frame role place made (fun descent => action descent >>= fun a => f a descent) more
      result
  | handing (h : Builds frame role place made action parts known)
      (hmade : frame.Around others made) :
    Builds frame role place others action parts known
  | silent {action : Lower α} (h : Silent action)
      (hknown : ∀ context state, known ((action.run context).run state).1) :
    Builds frame role place [] (fun _ => action) (fun _ => []) known
  | nameCase (enum case : String) (style : CaseStyle) :
    Builds frame role place [] (fun _ => nameCase enum case style) (fun _ => []) frame.given
  | declare (name : String) (ty : Option Swift.Ty) :
    Builds frame .statement place [] (fun _ => declare name ty) (fun _ => []) fun _ => True
  | narrow (name : String) (ty : Option Swift.Ty) :
    Builds frame .statement place [] (fun _ => narrow name ty) (fun _ => []) fun _ => True
  | declareFresh (h : frame.source name) (ty : Option Swift.Ty) :
    Builds frame .statement place [] (fun _ => declareFresh name ty) (fun _ => []) frame.given
  | reference (name : String) (range : Option SourceRange) :
    Builds frame role place [] (fun _ => Expression.reference name range) (fun node => [node])
      fun _ => True
  | refuse (hnote : Diagnostic.refusal? ⟨.noEquivalent obstacle, range⟩ =
        some (obstacle.message, range))
      (h : obstacle.isPlaced = true → frame.refused ⟨.noEquivalent obstacle, range⟩) :
    Builds frame role place [] (fun _ => refuse obstacle range) (fun node => [node]) fun _ => True
  /-- A look at the surroundings, which tell the place, may lead to a refusal. -/
  | refuseIf {test : Surroundings → Prop} [DecidablePred test]
      (hnote : Diagnostic.refusal? ⟨.noEquivalent obstacle, range⟩ =
        some (obstacle.message, range))
      (h : ∀ around, place.Matches around → test around →
        frame.refused ⟨.noEquivalent obstacle, range⟩)
      (haction : Builds frame role place [] action (fun node => [node]) fun _ => True) :
    Builds frame role place [] (fun descent => surroundings >>= fun around =>
      if test around then Lowering.refuse obstacle range else action descent)
      (fun node => [node]) fun _ => True
  | breakStmt (hrefused : place.body = some .switchCase →
        frame.refused ⟨.noEquivalent .breakInCase, range⟩)
      (hleft : place.body ≠ some .switchCase → frame.left range) :
    Builds frame role place [] (fun _ => Statement.breakStmt range) (fun node => [node])
      fun _ => True
  | entering {body : Body} (hbody : body ≠ .closure)
      (h : Builds frame role (place.enter body) made action parts known) :
    Builds frame role place made (fun descent => surrounded (body.change ·) (action descent)) parts
      known
  | withScope (scope : Scope)
      (hscope : ∀ receiver name, scope = .extension receiver name → frame.extensions receiver name)
      (h : Builds frame role { place with owner := scope.owner } made action parts known) :
    Builds frame role place made (fun descent => withScope scope (action descent)) parts known
  | expecting (expectedEnum : Option String)
      (h : Builds frame role place made action parts known) :
    Builds frame role place made (fun descent => expecting expectedEnum (action descent)) parts
      known
  | inBlock (h : Builds frame .statement place made action parts known) :
    Builds frame role place made (fun descent => inBlock (action descent)) parts known
  | inClosure (h : Builds frame .statement (place.enter .closure) made action parts known) :
    Builds frame role place made (fun descent => inClosure (action descent))
      (fun result => parts result.1) fun result => known result.1

/-- The action makes one node. -/
abbrev MakesNode (frame : Frame) (role : Role) (place : Place) (made : List Kotlin.Node)
    (action : Descent → Lower Kotlin.Node) : Prop :=
  frame.Builds role place made action (fun node => [node]) fun _ => True

/-- The action makes a list of nodes. -/
abbrev MakesNodes (frame : Frame) (role : Role) (place : Place) (made : List Kotlin.Node)
    (action : Descent → Lower (List Kotlin.Node)) : Prop :=
  frame.Builds role place made action (fun nodes => nodes) fun _ => True

variable {frame : Frame}

namespace Builds

variable {α β : Type}

variable {f : α → Descent → Lower β}

theorem pure (h : frame.Around made (parts a)) :
    frame.Builds role place made (fun _ => Pure.pure a) parts fun _ => True :=
  given h trivial

theorem bind (h : frame.Builds role place [] action parts known)
    (hf : ∀ a, frame.Builds role place (made ++ parts a) (f a) more result) :
    frame.Builds role place made (fun descent => action descent >>= fun a => f a descent) more
      result :=
  h.knowing fun a _ => hf a

/-- An action that makes nothing can come first. -/
theorem first (h : frame.Builds role place [] action (fun _ => []) known)
    (hf : ∀ a, known a → frame.Builds role place made (f a) more result) :
    frame.Builds role place made (fun descent => action descent >>= fun a => f a descent) more
      result :=
  h.knowing fun a ha => (List.append_nil made).symm ▸ hf a ha

theorem after (h : Silent action) (hf : ∀ a, frame.Builds role place made (f a) more result) :
    frame.Builds role place made (fun descent => action >>= fun a => f a descent) more result :=
  (silent h fun _ _ => trivial).first fun a (_ : True) => hf a

theorem look (h : ∀ {R : State → State → Prop} [IsPreorder State R], Keeps R action)
    (hf : ∀ a, frame.Builds role place made (f a) more result) :
    frame.Builds role place made (fun descent => action >>= fun a => f a descent) more result :=
  after (fun _ _ _ => h) hf

theorem mapM (items : List α) (h : ∀ a ∈ items, frame.Builds role place [] (f a) more result) :
    frame.Builds role place [] (fun descent => items.mapM fun a => f a descent)
      (List.flatMap more) fun results => ∀ b ∈ results, result b := by
  induction items with
  | nil => exact given (.of_mem_iff (by simp)) (by simp)
  | cons item rest ih =>
    simp only [List.mapM_cons]
    have hrest := ih fun a ha => h a (List.mem_cons_of_mem _ ha)
    exact (h item List.mem_cons_self).knowing fun _ hfirst => hrest.knowing fun _ hothers =>
      given (.of_mem_iff (by simp)) (List.forall_mem_cons.2 ⟨hfirst, hothers⟩)

theorem optionM (item : Option α) (h : ∀ a ∈ item, frame.Builds role place [] (f a) more result) :
    frame.Builds role place [] (fun descent => Swift.optionM (fun a => f a descent) item)
      (fun results => results.toList.flatMap more) fun _ => True := by
  cases item with
  | none => exact pure (.of_mem_iff (by simp))
  | some a => exact (h a rfl).bind fun _ => pure (.of_mem_iff (by simp))

/-- Many actions that make one node each. -/
theorem nodes {f : α → Descent → Lower Kotlin.Node} (items : List α)
    (h : ∀ item ∈ items, frame.MakesNode role place [] (f item)) :
    frame.MakesNodes role place [] fun descent => items.mapM fun item => f item descent := by
  have hall : frame.MakesNodes role place [] fun descent =>
      (items.mapM fun item => f item descent) >>= fun nodes => Pure.pure nodes :=
    (mapM items h).bind fun _ => pure (.of_mem_iff (by simp))
  simpa using hall

end Builds

/-! ## The frame of a construct -/

/-- The parts of the node may be lowered in their places, given its own, and what the node and its
parts declare comes from the source. -/
structure Lowers (frame : Frame) (place : Place) (whole : Node) : Prop where
  allowed : ∀ role part, part.StandsIn role whole →
    frame.allowed (place.within whole.construct role part) role part
  extension : ∀ extended members, whole.construct = .extensionDecl extended members →
    frame.extensions (extensionType extended) extended
  names : ∀ name ∈ whole.construct.names, frame.source name
  partNames : ∀ (role : Role) (part : Node), part.StandsIn role whole →
    ∀ name ∈ part.construct.names, frame.source name
  invalid : ∀ kind flaw, whole.construct = .invalid kind flaw →
    frame.Plain (Expression.invalidComment kind flaw whole.range)
  unknown : ∀ kind children, whole.construct = .unknown kind children →
    frame.Plain (Expression.unknownComment kind whole.range)

/-- As a statement the node may also be refused or left as a `break`, if that is its place. -/
structure LowersStatement (frame : Frame) (place : Place) (whole : Node) : Prop
    extends frame.Lowers place whole where
  refused : ∀ obstacle, place.obstacle? whole.construct = some obstacle →
    frame.refused ⟨.noEquivalent obstacle, whole.range⟩
  left : whole.construct = .breakStmt → place.body ≠ some .switchCase → frame.left whole.range

/-- As a value the node may also be refused, if it is none. -/
structure LowersValue (frame : Frame) (place : Place) (whole : Node) : Prop
    extends frame.Lowers place whole where
  refused : ¬ whole.IsValue →
    frame.refused ⟨.noEquivalent (.statementAsValue whole.construct.tag.label), whole.range⟩

theorem LowersValue.of_isValue (h : frame.Lowers place whole) (hvalue : whole.IsValue) :
    frame.LowersValue place whole :=
  ⟨h, fun hnot => absurd hvalue hnot⟩

namespace Lowers

variable (h : frame.Lowers place whole) (hc : whole.construct = construct)

include h hc

theorem part (hnode : node.StandsIn role whole)
    (hplace : place.within construct role node = place') : frame.allowed place' role node := by
  subst hc hplace
  exact h.allowed role node hnode

theorem one (hnode : (role, node) ∈ construct.positions)
    (hplace : place.within construct role node = place') :
    frame.allowed place' role node := by
  refine h.part hc (.here ?_) hplace
  rwa [hc]

theorem all (hnodes : ∀ node ∈ nodes, (role, node) ∈ construct.positions)
    (hplace : ∀ node, place.within construct role node = place') :
    frame.AllAllowed place' role nodes :=
  fun node hnode => h.one hc (hnodes node hnode) (hplace node)

/-- What is inside of an optional chain counts as a part as well. -/
theorem target (hbase : base.StandsIn .value whole)
    (hplace : ∀ node, place.within construct .value node = place') :
    frame.allowed place' .value (chainTarget base).1 := by
  refine h.part hc ?_ (hplace _)
  unfold chainTarget
  split
  · next target hinner =>
    refine Node.StandsIn.trans (.here ?_) hbase
    rw [hinner]
    simp
  · exact hbase

/-- A name that the construct declares in the source. -/
theorem own (hname : name ∈ construct.names) : frame.source name :=
  h.names name (hc ▸ hname)

end Lowers

end Frame

end Lowering

end SwiftToKotlin
