import SwiftToKotlin.Proofs.Lowering.Jumps.Declaration

/-!
# Returns in closures

A `return` in a Kotlin lambda would leave the function around it. So a closure becomes a lambda in
which no return surfaces: one at the end of the body is left out for its value, and every other one
that is reached before a function is entered is refused, with an error and a comment in its place.
-/

namespace SwiftToKotlin.Lowering

open Swift (Node)

/-! ## Visits inside of a closure -/

/-- The visits that a visit leads to as long as the body of no function is entered, with the height
that is left for them. -/
inductive LeadsTo (context : Context) (height : Nat) (whole : Visit) : Nat → Visit → Prop
  | refl : LeadsTo context height whole height whole
  | part (h : LeadsTo context height whole (below + 1) visit)
      (hasks : Asks context (descend below) visit part)
      (hbody : Place.body? visit.node.construct part.role ≠ some .function) :
      LeadsTo context height whole below part

theorem Place.closures_le_within {place : Place} (h : Place.body? construct role ≠ some .function) :
    place.closures ≤ (place.within construct role part).closures := by
  unfold Place.within
  cases hbody : Place.body? construct role with
  | none => exact Nat.le_refl _
  | some body =>
    cases body with
    | function => exact absurd hbody h
    | closure => exact Nat.le_succ _
    | loop => exact Nat.le_refl _
    | switchCase => exact Nat.le_refl _

namespace LeadsTo

variable {height below : Nat}

variable (h : LeadsTo context height whole below visit)

include h

/-- All that a closure leads to is in a closure. -/
theorem exists_place (hc : whole.node.construct = .closure params body) :
    ∃ place : Place, place.Matches visit.state.surroundings ∧
      (visit = whole ∨ 0 < place.closures) := by
  induction h with
  | refl => exact ⟨_, Place.matches_ofSurroundings _, .inl rfl⟩
  | part _ hasks hbody ih =>
    obtain ⟨place, hplace, hinside⟩ := ih
    refine ⟨_, ((step hplace).part _ hasks).2, .inr ?_⟩
    rcases hinside with rfl | hclosures
    · rw [hc]
      exact Nat.succ_pos _
    · exact Nat.lt_of_lt_of_le hclosures (Place.closures_le_within hbody)

/-- It also comes to all of that. -/
theorem comesTo : ComesTo context height whole below visit := by
  induction h with
  | refl => exact .refl
  | part _ hasks _ ih => exact .part ih hasks

end LeadsTo

/-! ## The statements of a closure -/

def isReturn (node : Node) : Bool :=
  match node.construct with
  | .returnStmt _ => true
  | _ => false

/-- Of a return at the end of a closure only the value matters. -/
def withoutLastReturn (body : List Node) : List Node :=
  if body.getLast?.any isReturn then body.dropLast else body

theorem mem_withoutLastReturn (hlast : body.getLast? = some last)
    (h : node ∈ withoutLastReturn body) :
    node ∈ body.dropLast ∨ node = last ∧ isReturn last = false := by
  unfold withoutLastReturn at h
  rw [hlast, Option.any_some] at h
  split at h
  · exact .inl h
  · next hreturn =>
    rw [← List.dropLast_append_getLast? last hlast, List.mem_append, List.mem_singleton] at h
    exact h.imp_right fun heq => ⟨heq, by simpa using hreturn⟩

/-- The statement is visited, by a visit with the property. -/
def IsVisited (P : Visit → Prop) (node : Node) : Prop :=
  ∃ visit, P visit ∧ visit.role = .statement ∧ visit.node = node

section Statements

variable {scene : Scene}

open Scene (Yields steady_declare)

/-- The last statement is visited unless it is a return. -/
theorem yields_lastStatement (h : scene.allowed place .statement node)
    (hvalue : ∀ value, node.construct = .returnStmt (some value) →
      scene.allowed place .value value) :
    scene.Yields P place [] (fun descent => Expression.lastStatement descent node)
      (fun nodes => nodes) fun _ => isReturn node = false → IsVisited P node := by
  unfold Expression.lastStatement isReturn
  split
  · next value hc =>
    have hkept : scene.frame.MakesNode .value place [] fun descent => descent.kept value :=
      builds_kept (hvalue value hc)
    exact .of_builds (hkept.bind fun _ => .given (.refl _)
      fun hreturn => absurd hreturn (by simp [hc]))
  · next hc => exact .pure (.refl _) fun hreturn => absurd hreturn (by simp [hc])
  · refine (Yields.statement h).mono fun _ hmade _ => ?_
    obtain ⟨visit, hP, hrole, hnode, -⟩ := hmade
    exact ⟨visit, hP, hrole, hnode⟩

theorem yields_closureBody (h : scene.frame.AllAllowed place .statement body)
    (hvalue : ∀ node ∈ body, ∀ value, node.construct = .returnStmt (some value) →
      scene.allowed place .value value) :
    scene.Yields P place [] (fun descent => Expression.closureBody descent body)
      (fun nodes => nodes) fun _ => ∀ node ∈ withoutLastReturn body, IsVisited P node := by
  unfold Expression.closureBody
  split
  · next last hlast =>
    have hlastIn := List.mem_of_getLast? hlast
    have hfirst := yields_statements (P := P) fun node hnode =>
      h node (List.dropLast_subset body hnode)
    refine hfirst.bind fun _ => (yields_lastStatement (h last hlastIn) (hvalue last hlastIn)).bind
      fun _ => .pure (.refl _) fun hend hmade node hnode => ?_
    rcases mem_withoutLastReturn hlast hnode with hin | ⟨rfl, hreturn⟩
    · obtain ⟨visits, hvisits, hall, -⟩ := hmade
      obtain ⟨visit, hvisit, rfl⟩ := List.mem_map.1 (hvisits ▸ hin)
      exact ⟨visit, (hall visit hvisit).2, (hall visit hvisit).1, rfl⟩
    · exact hend hreturn
  · next hnone =>
    have hempty : body = [] := List.getLast?_eq_none_iff.1 hnone
    exact .pure (.refl _) (by simp [hempty, withoutLastReturn])

theorem yields_closure (params) (h : scene.frame.AllAllowed (place.enter .closure) .statement body)
    (hvalue : ∀ node ∈ body, ∀ value, node.construct = .returnStmt (some value) →
      scene.allowed (place.enter .closure) .value value) (range) :
    scene.Yields P place [] (fun descent => Expression.closure descent params body range)
      (fun node => [node]) fun _ => ∀ node ∈ withoutLastReturn body, IsVisited P node :=
  (Yields.after (Keeps.forM params fun _ => steady_declare _ _) fun _ =>
    yields_closureBody h hvalue).inClosure.bind fun _ =>
      .pure (.around (fun _ _ => trivial) (by simp)) id

end Statements

/-- A closure visits all of its statements but for a return at the end. -/
theorem isVisited_of_closure (hrole : whole.role = .value)
    (hc : whole.node.construct = .closure params body) :
    ∀ node ∈ withoutLastReturn body, IsVisited (Asks context (descend height) whole) node := by
  let place := Place.ofSurroundings whole.state.surroundings
  have hplace : place.Matches whole.state.surroundings := Place.matches_ofSurroundings _
  have hlowers := @Scene.lowers_ofVisit context height place whole
  have hbody : (Scene.ofVisit context height place whole).frame.AllAllowed
      (place.enter .closure) .statement body :=
    hlowers.all hc (by simp) fun _ => rfl
  have hvalue : ∀ node ∈ body, ∀ value, node.construct = .returnStmt (some value) →
      (Scene.ofVisit context height place whole).allowed (place.enter .closure) .value value := by
    intro node hnode value hreturn
    have hin : node.StandsIn .statement whole.node := .here (by simpa [hc] using hnode)
    have hpart : value.StandsIn .value node := .here (by simp [hreturn])
    exact hlowers.part hc (hpart.trans hin) rfl
  have hyields := yields_closure (P := Asks context (descend height) whole) params hbody hvalue
    whole.node.range
  obtain ⟨trace, htrace, hresult⟩ := hyields.explained whole.state (Scene.admits_ofVisit hplace)
  refine hresult fun visit hvisit => (asks_iff_of_explains (fun other => ?_) htrace visit).2 hvisit
  simp only [Descent.outcome, hrole, Descent.above, Expression.lower, hc]

/-! ## Returns that are reached -/

/-- A return inside of a closure is refused, whether it stands for a statement or for a value. -/
theorem outcome_returnStmt (context) (height : Nat) {place : Place}
    (hplace : place.Matches visit.state.surroundings) (hclosures : 0 < place.closures)
    (hc : visit.node.construct = .returnStmt value) :
    ∃ obstacle : Obstacle, (visit.role = .statement → obstacle = .returnInClosure) ∧
      (descend (height + 1)).outcome context visit =
        ([.comment obstacle.message visit.node.range], { visit.state with diagnostics :=
              visit.state.diagnostics ++ [⟨.noEquivalent obstacle, visit.node.range⟩] }) := by
  cases hrole : visit.role with
  | statement =>
    have hobstacle : place.obstacle? visit.node.construct = some .returnInClosure := by
      simp [hc, Place.obstacle?, hclosures]
    exact ⟨.returnInClosure, fun _ => rfl, outcome_of_obstacle hplace hrole hobstacle⟩
  | value =>
    refine ⟨.statementAsValue visit.node.construct.tag.label, by simp, ?_⟩
    rw [descend_succ]
    simp only [Descent.outcome, hrole, Descent.above, Expression.lower, hc]
    rfl

/-- The lambda that a closure becomes. -/
theorem value_closure (context) (height : Nat) {closure : Node}
    (hc : closure.construct = .closure params body) (state) :
    ∃ names made final, (((descend (height + 1)).value closure).run context).run state =
      (⟨.lambda names made, closure.range⟩, final) := by
  change ∃ names made final, ((Expression.lower (descend height) closure).run context).run state = _
  simp only [Expression.lower, hc]
  exact ⟨_, _, _, rfl⟩

/-- In whatever state a closure is lowered, it becomes a lambda in which no return surfaces. All of
its statements are visited but for a return at the end. Every return that lowering comes to without
entering the body of a function, in the closure or in closures in it, is refused: a comment takes
its place in the lambda, and its error is told. -/
theorem closure_refuses_returns (context : Context) (state : State) {height : Nat}
    {closure : Node} {params : List String} {body : List Node}
    (hc : closure.construct = .closure params body) (hheight : closure.height ≤ height) :
    ∃ names made final,
      (((descend height).value closure).run context).run state =
        (⟨.lambda names made, closure.range⟩, final) ∧
      (∀ value range, ¬ (⟨.returnStmt value, range⟩ : Kotlin.Node).SurfacesIn true
        ⟨.lambda names made, closure.range⟩) ∧
      (∀ statement ∈ withoutLastReturn body,
        IsVisited (∃ below, LeadsTo context height ⟨.value, closure, state⟩ below ·) statement) ∧
      ∀ below visit value, LeadsTo context height ⟨.value, closure, state⟩ below visit →
        visit.node.construct = .returnStmt value →
          ∃ obstacle : Obstacle, (visit.role = .statement → obstacle = .returnInClosure) ∧
            ((descend below).outcome context visit).1 =
              [.comment obstacle.message visit.node.range] ∧
            (Kotlin.Node.comment obstacle.message visit.node.range).OccursIn
              ⟨.lambda names made, closure.range⟩ ∧
            visit.state.diagnostics ++ [⟨.noEquivalent obstacle, visit.node.range⟩] <+:
              final.diagnostics := by
  obtain ⟨height, rfl⟩ : ∃ below, height = below + 1 :=
    ⟨height - 1, by have := closure.height_pos; omega⟩
  obtain ⟨names, made, final, hrun⟩ := value_closure context height hc state
  refine ⟨names, made, final, hrun, ?_, ?_, ?_⟩
  · intro value range hsurfaces
    have hcalm := (descend_showsJumps context .returns (height + 1)).value closure state
    rw [hrun] at hcalm
    exact hcalm ⟨_, rfl, hsurfaces⟩
  · intro statement hstatement
    have hvisited : IsVisited (Asks context (descend height) ⟨.value, closure, state⟩) statement :=
      isVisited_of_closure rfl hc statement hstatement
    obtain ⟨visit, hasks, hrole, hnode⟩ := hvisited
    refine ⟨visit, ⟨height, .part .refl hasks ?_⟩, hrole, hnode⟩
    simp [hc, Place.body?]
  · intro below visit value hleads hreturn
    have hle := hleads.comesTo.height_le hheight
    obtain ⟨place, hplace, hinside⟩ := hleads.exists_place hc
    have hclosures : 0 < place.closures := by
      rcases hinside with rfl | hclosures
      · cases hc.symm.trans hreturn
      · exact hclosures
    obtain ⟨below, rfl⟩ : ∃ inner, below = inner + 1 :=
      ⟨below - 1, by have := visit.node.height_pos; omega⟩
    obtain ⟨obstacle, hrole, houtcome⟩ := outcome_returnStmt context below hplace hclosures hreturn
    have hwhole : (descend (height + 1)).outcome context ⟨.value, closure, state⟩ =
        ([⟨.lambda names made, closure.range⟩], final) := by
      simp only [Descent.outcome, hrun]
    have hcomment : (Kotlin.Node.comment obstacle.message visit.node.range).OccursAmong
        ((descend (height + 1)).outcome context ⟨.value, closure, state⟩).1 :=
      hleads.comesTo.kept (by simp [houtcome])
    have htold := hleads.comesTo.told
    rw [hwhole] at hcomment htold
    rw [houtcome] at htold
    exact ⟨obstacle, hrole, by rw [houtcome], by simpa using hcomment, htold⟩

/-- The closure `{ x in if x { return 1 }; return x }`. -/
def earlyReturn : Node :=
  let use : Node := ⟨.reference "x" none, none⟩
  let early : Node := ⟨.returnStmt (some ⟨.literal (.integer "1"), none⟩), none⟩
  ⟨.closure ["x"] [⟨.ifStmt (.expr use) [early] none, none⟩, ⟨.returnStmt (some use), none⟩], none⟩

/-- The return in the branch is refused, and the one at the end is not. -/
theorem earlyReturn_refused : earlyReturn.height ≤ 4 ∧ ∃ names made final,
    (((descend 4).value earlyReturn).run (.ofRoot [] earlyReturn)).run {} =
      (⟨.lambda names made, none⟩, final) ∧
    (∀ value range, ¬ (⟨.returnStmt value, range⟩ : Kotlin.Node).SurfacesIn true
      ⟨.lambda names made, none⟩) ∧
    final.diagnostics = [⟨.noEquivalent .returnInClosure, none⟩] := by
  have hheight : earlyReturn.height ≤ 4 := by decide
  obtain ⟨names, made, final, hrun, hnone, -⟩ :=
    closure_refuses_returns (.ofRoot [] earlyReturn) {} rfl hheight
  have htold :
      ((((descend 4).value earlyReturn).run (.ofRoot [] earlyReturn)).run {}).2.diagnostics =
        [⟨.noEquivalent .returnInClosure, none⟩] := by with_unfolding_all rfl
  rw [hrun] at htold
  exact ⟨hheight, names, made, final, hrun, hnone, htold⟩

end SwiftToKotlin.Lowering
