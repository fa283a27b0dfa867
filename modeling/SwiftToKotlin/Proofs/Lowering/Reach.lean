import SwiftToKotlin.Proofs.Lowering.Assembly
import SwiftToKotlin.Proofs.Lowering.Comments

/-!
# What is reached ends up in the result

A visit asks for exactly those visits that explain it. So what is made of a node that is reached is
part of the Kotlin file, and its diagnostics are told; conversely every `break` in the file and
every diagnostic that is due to a place comes from a statement that is reached in that place.
-/

namespace SwiftToKotlin.Lowering

open Swift (Node Role)

/-! ## One visit -/

namespace Scene

/-- The scene of a visit in a place, with lowering up to a height for the parts. -/
def ofVisit (context : Context) (height : Nat) (place : Place) (whole : Visit) : Scene where
  context
  below := descend height
  follows := descend_follows stackDiscipline height
  allowed inner role part :=
    part.StandsIn role whole.node ∧ inner = place.within whole.node.construct role part
  extensions receiver name :=
    whole.state.surroundings.scope = .extension receiver name ∨
      (∃ members, whole.node.construct = .extensionDecl name members) ∧
        receiver = extensionType name
  refused d :=
    (whole.role = .statement ∧ ∃ obstacle, place.obstacle? whole.node.construct = some obstacle ∧
      d = ⟨.noEquivalent obstacle, whole.node.range⟩) ∨
    (whole.role = .value ∧ ¬ whole.node.IsValue)
  left range := whole.role = .statement ∧ whole.node.construct = .breakStmt ∧
    place.body ≠ some .switchCase ∧ range = whole.node.range

variable {context : Context}

theorem lowers_ofVisit : (ofVisit context height place whole).frame.Lowers place whole.node where
  allowed _ _ h := ⟨h, rfl⟩
  extension _ members hc := .inr ⟨⟨members, hc⟩, rfl⟩
  names _ _ := trivial
  partNames _ _ _ _ _ := trivial
  invalid _ _ _ := trivial
  unknown _ _ _ := trivial

theorem admits_ofVisit (h : place.Matches whole.state.surroundings) :
    (ofVisit context height place whole).Admits place whole.state.surroundings :=
  ⟨h, fun _ _ => .inl⟩

theorem lowersStatement_ofVisit (h : whole.role = .statement) :
    (ofVisit context height place whole).frame.LowersStatement place whole.node where
  toLowers := lowers_ofVisit
  refused obstacle hobstacle := .inl ⟨h, obstacle, hobstacle, rfl⟩
  left hbreak hbody := ⟨h, hbreak, hbody, rfl⟩

theorem lowersValue_ofVisit (h : whole.role = .value) :
    (ofVisit context height place whole).frame.LowersValue place whole.node where
  toLowers := lowers_ofVisit
  refused hnot := .inr ⟨h, hnot⟩

end Scene

section Altered

open Classical

/-- The result of a visit, with other diagnostics if the visit is the special one. -/
noncomputable def altered {α : Type} (special : Visit) (diagnostics : List Diagnostic)
    (visit : Visit) (result : α × State) : α × State :=
  if visit = special then (result.1, { result.2 with diagnostics }) else result

/-- Lowering that tells other diagnostics at one visit. -/
noncomputable def Descent.telling (below : Descent) (special : Visit)
    (diagnostics : List Diagnostic) : Descent where
  statement node := fun context state =>
    altered special diagnostics ⟨.statement, node, state⟩
      (((below.statement node).run context).run state)
  value node := fun context state =>
    altered special diagnostics ⟨.value, node, state⟩
      (((below.value node).run context).run state)

variable {below : Descent}

theorem outcome_telling (visit : Visit) :
    (below.telling special diagnostics).outcome context visit =
      altered special diagnostics visit (below.outcome context visit) := by
  obtain ⟨role, node, state⟩ := visit
  cases role with
  | statement => rfl
  | value =>
    change ([(altered _ _ _ _).1], (altered _ _ _ _).2) = altered _ _ _ ([_], _)
    unfold altered
    split <;> rfl

theorem outcome_telling_of_ne (h : visit ≠ special) :
    (below.telling special diagnostics).outcome context visit = below.outcome context visit := by
  rw [outcome_telling, altered, if_neg h]

theorem diagnostics_outcome_telling :
    ((below.telling special diagnostics).outcome context special).2.diagnostics = diagnostics := by
  rw [outcome_telling, altered, if_pos rfl]

theorem grows_altered {α : Type} (visit : Visit) {result : α × State}
    (hresult : Grows visit.state result.2) (h : special.state.diagnostics <+: diagnostics) :
    Grows visit.state (altered special diagnostics visit result).2 := by
  unfold altered
  split
  · next heq =>
    subst heq
    exact ⟨h, hresult.2⟩
  · exact hresult

theorem growing_telling (hbelow : below.Growing) (h : special.state.diagnostics <+: diagnostics) :
    (below.telling special diagnostics).Growing where
  statement node context state :=
    grows_altered ⟨.statement, node, state⟩ (hbelow.statement node context state) h
  value node context state :=
    grows_altered ⟨.value, node, state⟩ (hbelow.value node context state) h

end Altered

/-- What a visit does, told by the visits that it asks for. -/
structure Step (context : Context) (height : Nat) (place : Place) (whole : Visit) : Prop where
  part : ∀ part, Asks context (descend height) whole part →
    part.node.StandsIn part.role whole.node ∧
      (place.within whole.node.construct part.role part.node).Matches part.state.surroundings
  /-- An extension that a part is in is the one that the whole is in, or the whole itself. -/
  extended : ∀ part, Asks context (descend height) whole part → ∀ receiver name,
    part.state.surroundings.scope = .extension receiver name →
      whole.state.surroundings.scope = .extension receiver name ∨
        (∃ members, whole.node.construct = .extensionDecl name members) ∧
          receiver = extensionType name
  told : ∀ part, Asks context (descend height) whole part →
    Grows ((descend height).outcome context part).2
      ((descend (height + 1)).outcome context whole).2
  kept : ∀ part, Asks context (descend height) whole part →
    ∀ node : Kotlin.Node, node.OccursAmong ((descend height).outcome context part).1 →
      node.OccursAmong ((descend (height + 1)).outcome context whole).1
  /-- A diagnostic that is due to a place is its own or that of a part. A value has one of its own
  only if it is none. -/
  news : ∀ d ∈ ((descend (height + 1)).outcome context whole).2.diagnostics,
    d.isPlaced = true → d ∉ whole.state.diagnostics →
      (whole.role = .statement ∧ ∃ obstacle, place.obstacle? whole.node.construct = some obstacle ∧
        d = ⟨.noEquivalent obstacle, whole.node.range⟩) ∨
      (whole.role = .value ∧ ¬ whole.node.IsValue) ∨
      ∃ part, Asks context (descend height) whole part ∧
        d ∈ ((descend height).outcome context part).2.diagnostics ∧ d ∉ part.state.diagnostics
  /-- So is a `break`. -/
  breaks : ∀ range, (⟨.breakStmt, range⟩ : Kotlin.Node).OccursAmong
      ((descend (height + 1)).outcome context whole).1 →
    (whole.role = .statement ∧ whole.node.construct = .breakStmt ∧
      place.body ≠ some .switchCase ∧ range = whole.node.range) ∨
    ∃ part, Asks context (descend height) whole part ∧
      (⟨.breakStmt, range⟩ : Kotlin.Node).OccursAmong ((descend height).outcome context part).1

section Steps

variable {scene : Scene} {α : Type} {parts : α → List Kotlin.Node}

/-- The visit is answered by an action, whatever the lowering of its parts. -/
def AnsweredBy (context : Context) (whole : Visit) (action : Descent → Lower α)
    (parts : α → List Kotlin.Node) : Prop :=
  ∀ other : Descent, other.above.outcome context whole =
    (parts (((action other).run context).run whole.state).1,
      (((action other).run context).run whole.state).2)

/-- The visits that explain an action are those that it asks for. -/
theorem asks_iff_of_explains (houtcome : AnsweredBy scene.context whole action parts)
    (h : scene.Explains [] action parts whole.state trace) (part : Visit) :
    Asks scene.context scene.below whole part ↔ part ∈ trace := by
  constructor
  · rintro ⟨other, hagrees, hdiffers⟩
    by_contra hpart
    have hsame := h.determined other fun visit hvisit =>
      hagrees visit fun heq => hpart (heq ▸ hvisit)
    rw [houtcome, houtcome] at hdiffers
    exact hdiffers (congrArg (fun result : α × State => (parts result.1, result.2)) hsame)
  -- A part that tells one diagnostic more than the whole can tell makes the whole tell it.
  · intro hpart
    have htold : (scene.outcome part).2.diagnostics <+:
        (scene.below.above.outcome scene.context whole).2.diagnostics := by
      rw [houtcome]
      exact (h.told part hpart).1
    generalize hfinal : (scene.below.above.outcome scene.context whole).2.diagnostics = final
      at htold
    have hextra : part.state.diagnostics <+: final ++ [⟨.unrecognized "", none⟩] :=
      ((scene.growing.outcome scene.context part).1.trans htold).trans (List.prefix_append _ _)
    refine ⟨scene.below.telling part (final ++ [⟨.unrecognized "", none⟩]),
      fun visit hne => outcome_telling_of_ne hne, fun heq => ?_⟩
    have hfelt := (h.sensitive _ part (growing_telling scene.growing hextra)
      (fun visit hne => outcome_telling_of_ne hne) hpart).1
    rw [← heq, houtcome] at hfinal
    rw [diagnostics_outcome_telling] at hfelt
    have hlength := Nat.le_trans hfelt.length_le (Nat.le_of_eq (congrArg List.length hfinal))
    rw [List.length_append, List.length_singleton] at hlength
    omega

theorem step_of_explains (houtcome : AnsweredBy context whole action parts)
    (h : (Scene.ofVisit context height place whole).Explains [] action parts whole.state trace) :
    Step context height place whole := by
  have hasks (part : Visit) : Asks context (descend height) whole part ↔ part ∈ trace :=
    asks_iff_of_explains houtcome h part
  have hown : (descend (height + 1)).outcome context whole =
      (parts ((Scene.ofVisit context height place whole).run action whole.state).1,
        ((Scene.ofVisit context height place whole).run action whole.state).2) :=
    houtcome (descend height)
  exact {
    part := fun part hpart => by
      obtain ⟨inner, hadmits, hstands, rfl⟩ := h.allowed part ((hasks part).1 hpart)
      exact ⟨hstands, hadmits.toMatches⟩
    extended := fun part hpart => by
      obtain ⟨inner, hadmits, -⟩ := h.allowed part ((hasks part).1 hpart)
      exact hadmits.extension
    told := fun part hpart => by
      rw [hown]
      exact h.told part ((hasks part).1 hpart)
    kept := fun part hpart node hnode => by
      rw [hown]
      refine h.built.kept node ?_
      obtain ⟨answer, hanswer, hin⟩ := hnode
      exact ⟨answer, List.mem_flatMap.2 ⟨part, (hasks part).1 hpart, hanswer⟩, hin⟩
    news := fun d hd hplaced hnew => by
      rw [hown] at hd
      rcases h.news d hd with hold | hfresh | ⟨part, hpart, hlate⟩
      · exact absurd hold hnew
      · rcases hfresh hplaced with hown | hmisplaced
        · exact .inl hown
        · exact .inr (.inl hmisplaced)
      · exact .inr (.inr ⟨part, (hasks part).2 hpart, hlate⟩)
    breaks := fun range hbreak => by
      rw [hown] at hbreak
      rcases h.built.fresh _ hbreak with ⟨answer, hanswer, hin⟩ | hleft
      · obtain ⟨part, hpart, hanswer⟩ := List.mem_flatMap.1 hanswer
        exact .inr ⟨part, (hasks part).2 hpart, answer, hanswer, hin⟩
      · exact .inl hleft }

end Steps

/-- Every visit in a place that its surroundings tell is answered by an action that visits
explain. -/
theorem exists_explains_visit (context) (height : Nat)
    (h : place.Matches whole.state.surroundings) :
    ∃ (α : Type) (action : Descent → Lower α) (parts : α → List Kotlin.Node) (trace : List Visit),
      AnsweredBy context whole action parts ∧
        (Scene.ofVisit context height place whole).Explains [] action parts whole.state trace := by
  cases hrole : whole.role with
  | statement =>
    obtain ⟨trace, htrace⟩ := Scene.exists_explains
      (builds_lowerStatement (Scene.lowersStatement_ofVisit hrole)) whole.state
      (Scene.admits_ofVisit h)
    refine ⟨_, _, _, trace, fun other => ?_, htrace⟩
    simp only [Descent.outcome, hrole]
    rfl
  | value =>
    have hvalue : (Scene.ofVisit context height place whole).frame.MakesNode .value place []
        fun descent => Expression.lower descent whole.node :=
      Expression.builds_lower (Scene.lowersValue_ofVisit hrole)
    obtain ⟨trace, htrace⟩ := Scene.exists_explains hvalue whole.state (Scene.admits_ofVisit h)
    refine ⟨_, _, _, trace, fun other => ?_, htrace⟩
    simp only [Descent.outcome, hrole]
    rfl

/-- Every visit in a place that its surroundings tell is a step. -/
theorem step (h : place.Matches whole.state.surroundings) : Step context height place whole := by
  obtain ⟨_, _, _, _, houtcome, htrace⟩ := exists_explains_visit context height h
  exact step_of_explains houtcome htrace

/-! ## What a visit comes to -/

/-- The visits that a visit asks for, those that these ask for and so on, with the height that is
left for each. -/
inductive ComesTo (context : Context) (height : Nat) (whole : Visit) : Nat → Visit → Prop
  | refl : ComesTo context height whole height whole
  | part (h : ComesTo context height whole (below + 1) visit)
      (hasks : Asks context (descend below) visit part) : ComesTo context height whole below part

namespace ComesTo

variable {below : Nat} (h : ComesTo context height whole below visit)

include h

theorem height_le (hheight : whole.node.height ≤ height) : visit.node.height ≤ below := by
  induction h with
  | refl => exact hheight
  | part _ hasks ih =>
    have hlt := ((step (Place.matches_ofSurroundings _)).part _ hasks).1.height_lt
    omega

/-- What is told on the way is told in the end. -/
theorem told :
    ((descend below).outcome context visit).2.diagnostics <+:
      ((descend height).outcome context whole).2.diagnostics := by
  induction h with
  | refl => exact List.prefix_rfl
  | part _ hasks ih => exact ((step (Place.matches_ofSurroundings _)).told _ hasks).1.trans ih

/-- What is made on the way is part of what is made in the end. -/
theorem kept {node : Kotlin.Node}
    (hnode : node.OccursAmong ((descend below).outcome context visit).1) :
    node.OccursAmong ((descend height).outcome context whole).1 := by
  induction h with
  | refl => exact hnode
  | part _ hasks ih => exact ih ((step (Place.matches_ofSurroundings _)).kept _ hasks node hnode)

end ComesTo

/-! ## All visits -/

/-- The cases that have names once a whole tree is lowered. -/
def namedCases (droppedImports : List String) (root : Node) (diagnostics : List Diagnostic) :
    CaseTable :=
  ((((descend root.height).statement root).run (.ofRoot droppedImports root)).run
    { diagnostics }).2.cases

theorem occursIn_fileOf {node : Kotlin.Node} (range) (h : node.OccursAmong nodes) :
    node.OccursIn (fileOf range nodes) := by
  unfold fileOf
  split
  · simpa using h
  · exact Kotlin.Node.occursIn_mk.2 (.inr h)

theorem occursAmong_of_occursIn_fileOf {node : Kotlin.Node}
    (hfile : ∀ items, node.construct ≠ .file items) (h : node.OccursIn (fileOf range nodes)) :
    node.OccursAmong nodes := by
  unfold fileOf at h
  split at h
  · simpa using h
  · rcases Kotlin.Node.occursIn_mk.1 h with rfl | h
    · exact absurd rfl (hfile _)
    · exact h

namespace Reached

variable {root : Node}

variable (h : Reached droppedImports root diagnostics height place visit)

include h

/-- The surroundings of a visit tell its place. -/
theorem matches_surroundings : place.Matches visit.state.surroundings := by
  induction h with
  | root => exact .outermost
  | part _ hasks ih => exact ((step ih).part _ hasks).2

theorem standsIn :
    visit = ⟨.statement, root, { diagnostics }⟩ ∨ visit.node.StandsIn visit.role root := by
  induction h with
  | root => exact .inl rfl
  | part hwhole hasks ih =>
    have hstands := ((step hwhole.matches_surroundings).part _ hasks).1
    rcases ih with rfl | hin
    · exact .inr hstands
    · exact .inr (hstands.trans hin)

/-- Where lowering takes a node for a member of an extension, the node stands in that extension,
and the type that members extend is the one written for its name. -/
theorem extended (hscope : visit.state.surroundings.scope = .extension receiver name) :
    receiver = extensionType name ∧ ∃ height place whole members,
      Reached droppedImports root diagnostics height place whole ∧
        whole.node.construct = .extensionDecl name members ∧
          visit.node.StandsIn visit.role whole.node := by
  induction h with
  | root => cases hscope
  | @part _ _ whole part hwhole hasks ih =>
    have hstands := ((step hwhole.matches_surroundings).part part hasks).1
    rcases (step hwhole.matches_surroundings).extended part hasks receiver name hscope with
      hsame | ⟨⟨members, hc⟩, hreceiver⟩
    · obtain ⟨hreceiver, _, _, outer, members, houter, hc, hin⟩ := ih hsame
      exact ⟨hreceiver, _, _, outer, members, houter, hc, hstands.trans hin⟩
    · exact ⟨hreceiver, _, _, whole, members, hwhole, hc, hstands⟩

/-- There is always height enough left. -/
theorem height_le : visit.node.height ≤ height := by
  induction h with
  | root => exact Nat.le_refl _
  | part hwhole hasks ih =>
    have hlt := ((step hwhole.matches_surroundings).part _ hasks).1.height_lt
    omega

theorem exists_succ : ∃ below, height = below + 1 := by
  have hle := h.height_le
  have hpos := visit.node.height_pos
  exact ⟨height - 1, by omega⟩

/-- What a visit makes is part of the file. -/
theorem kept {node : Kotlin.Node}
    (hnode : node.OccursAmong ((descend height).outcome (.ofRoot droppedImports root) visit).1) :
    node.OccursIn (lower droppedImports root diagnostics).1 := by
  induction h with
  | root => exact occursIn_fileOf _ hnode
  | part hwhole hasks ih => exact ih ((step hwhole.matches_surroundings).kept _ hasks node hnode)

/-- What a visit tells is told in the end. -/
theorem told :
    ((descend height).outcome (.ofRoot droppedImports root) visit).2.diagnostics <+:
      (lower droppedImports root diagnostics).2 := by
  induction h with
  | root => exact List.prefix_rfl
  | part hwhole hasks ih => exact ((step hwhole.matches_surroundings).told _ hasks).1.trans ih

/-- The names that a visit has given to cases are theirs in the end. -/
theorem settled :
    ((descend height).outcome (.ofRoot droppedImports root) visit).2.cases.SettledIn
      (namedCases droppedImports root diagnostics) := by
  induction h with
  | root => exact fun _ _ h => h
  | part hwhole hasks ih =>
    have htold := (step hwhole.matches_surroundings).told _ hasks
    exact fun key name h => ih key name (htold.2 key name h)

/-- A `break` that a visit makes comes from a break that is reached outside of switch cases. -/
theorem exists_of_break
    (hbreak : (⟨.breakStmt, range⟩ : Kotlin.Node).OccursAmong
      ((descend height).outcome (.ofRoot droppedImports root) visit).1) :
    ∃ height place visit, Reached droppedImports root diagnostics height place visit ∧
      visit.role = .statement ∧ visit.node.construct = .breakStmt ∧
        place.body ≠ some .switchCase ∧ visit.node.range = range := by
  induction height generalizing place visit with
  | zero =>
    obtain ⟨below, hzero⟩ := h.exists_succ
    cases hzero
  | succ height ih =>
    rcases (step h.matches_surroundings).breaks range hbreak with
      ⟨hrole, hconstruct, hbody, rfl⟩ | ⟨part, hasks, hpart⟩
    · exact ⟨height + 1, place, visit, h, hrole, hconstruct, hbody, rfl⟩
    · exact ih (.part h hasks) hpart

/-- A diagnostic that is due to a place comes from a statement that is reached in such a place, or
from something that is reached as a value and is none. -/
theorem exists_of_placed (hplaced : d.isPlaced = true)
    (hd : d ∈ ((descend height).outcome (.ofRoot droppedImports root) visit).2.diagnostics)
    (hnew : d ∉ visit.state.diagnostics) :
    (∃ height place visit obstacle, Reached droppedImports root diagnostics height place visit ∧
      visit.role = .statement ∧ place.obstacle? visit.node.construct = some obstacle ∧
        d = ⟨.noEquivalent obstacle, visit.node.range⟩) ∨
    ∃ height place visit, Reached droppedImports root diagnostics height place visit ∧
      visit.role = .value ∧ ¬ visit.node.IsValue := by
  induction height generalizing place visit with
  | zero =>
    obtain ⟨below, hzero⟩ := h.exists_succ
    cases hzero
  | succ height ih =>
    rcases (step h.matches_surroundings).news d hd hplaced hnew with
      ⟨hrole, obstacle, hobstacle, heq⟩ | ⟨hrole, hnot⟩ | ⟨part, hasks, hpart, hlate⟩
    · exact .inl ⟨height + 1, place, visit, obstacle, h, hrole, hobstacle, heq⟩
    · exact .inr ⟨height + 1, place, visit, h, hrole, hnot⟩
    · exact ih (.part h hasks) hpart hlate

end Reached

end SwiftToKotlin.Lowering
