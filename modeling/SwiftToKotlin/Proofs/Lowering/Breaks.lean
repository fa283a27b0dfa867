import SwiftToKotlin.Proofs.Lowering.Refusals

/-!
# Breaks

Kotlin has no `break` for a `when`: it would leave the loop around it. So the innermost body around
a break decides. In a case of a switch the break is dropped at the end and refused anywhere else;
in all other bodies it stays a `break`. There are no other `break`s in the Kotlin file.
-/

namespace SwiftToKotlin

namespace Lowering

open Swift (Node)

/-! ## Single statements -/

/-- What is left of a body without a break at its end. -/
def IsWithoutLastBreak (body rest : List Node) : Prop :=
  (∃ last : Node, last.construct = .breakStmt ∧ body = rest ++ [last]) ∨
    (∀ last ∈ body.getLast?, last.construct ≠ .breakStmt) ∧ body = rest

theorem Statement.isBreak_iff (node : Node) :
    isBreak node = true ↔ node.construct = .breakStmt := by
  unfold isBreak
  split <;> simp_all

theorem isWithoutLastBreak (body) : IsWithoutLastBreak body (Statement.withoutLastBreak body) := by
  unfold Statement.withoutLastBreak
  split
  · next hany =>
    obtain ⟨last, hlast, hbreak⟩ := (Option.any_eq_true _ _).1 hany
    refine .inl ⟨last, (Statement.isBreak_iff last).1 hbreak, ?_⟩
    exact (List.dropLast_append_getLast? _ hlast).symm
  · next hany =>
    refine .inr ⟨fun last hlast hbreak => hany ?_, rfl⟩
    exact (Option.any_eq_true _ _).2 ⟨last, hlast, (Statement.isBreak_iff last).2 hbreak⟩

variable {place : Place}

theorem Place.obstacle?_eq_breakInCase_iff :
    place.obstacle? construct = some .breakInCase ↔
      construct = .breakStmt ∧ place.body = some .switchCase := by
  unfold Place.obstacle?
  split <;> simp_all

/-- A break that its place does not refuse is kept. -/
theorem outcome_breakStmt (hplace : place.Matches whole.state.surroundings)
    (hrole : whole.role = .statement) (hc : whole.node.construct = .breakStmt)
    (hbody : place.body ≠ some .switchCase) :
    (descend (height + 1)).outcome context whole =
      ([⟨.breakStmt, whole.node.range⟩], whole.state) := by
  have hcase : ¬ whole.state.surroundings.inCase = true := fun h => hbody (hplace.inCase.1 h)
  rw [outcome_of_one hrole (by simp only [lowerStatement, hc]; rfl), Statement.breakStmt_run,
    if_neg hcase]

theorem answeredBy_switchStmt (hrole : whole.role = .statement)
    (hc : whole.node.construct = .switchStmt subject cases) :
    AnsweredBy context whole
      (fun descent => Statement.switchStmt descent subject cases whole.node.range)
      fun node => [node] := by
  intro other
  simp only [Descent.outcome, hrole, Descent.above, lowerStatement, hc]
  rfl

/-- A switch asks for the statements of its cases in order, a last break of a case apart. -/
theorem outcome_switchStmt (hplace : place.Matches whole.state.surroundings)
    (hrole : whole.role = .statement) (hc : whole.node.construct = .switchStmt subject cases) :
    ∃ lowered branches,
      ((descend (height + 1)).outcome context whole).1 =
          [⟨.whenStmt (some lowered) branches, whole.node.range⟩] ∧
        List.Forall₂ (fun case branch => (Scene.ofVisit context height place whole).MadeBy
          (Asks context (descend height) whole) (Statement.withoutLastBreak case.body)
          branch.body) cases branches := by
  have hyields := yields_switchStmt (P := Asks context (descend height) whole)
    (@Scene.lowers_ofVisit context height place whole) hc whole.node.range
  obtain ⟨trace, htrace, hresult⟩ := hyields.explained whole.state (Scene.admits_ofVisit hplace)
  have hanswered : AnsweredBy context whole _ _ := answeredBy_switchStmt hrole hc
  obtain ⟨lowered, branches, hnode, hbranches⟩ := hresult fun visit hvisit =>
    (asks_iff_of_explains hanswered htrace visit).2 hvisit
  refine ⟨lowered, branches, ?_, hbranches⟩
  rw [descend_succ, hanswered]
  exact congrArg (fun node => [node]) hnode

/-- The scene of a switch in which no statements may be visited but those that are left of its
cases. -/
def Scene.ofSwitch (context : Context) (height : Nat) (place : Place) (whole : Visit)
    (cases : List (Swift.SwitchCase Node)) : Scene :=
  { Scene.ofVisit context height place whole with
    allowed := fun _ role node => role = .statement →
      ∃ case ∈ cases, node ∈ Statement.withoutLastBreak case.body }

/-- A switch asks for no other statements. -/
theorem mem_withoutLastBreak_of_asks (hplace : place.Matches whole.state.surroundings)
    (hrole : whole.role = .statement) (hc : whole.node.construct = .switchStmt subject cases)
    (hasks : Asks context (descend height) whole part) (hpart : part.role = .statement) :
    ∃ case ∈ cases, part.node ∈ Statement.withoutLastBreak case.body := by
  have hvalue (node : Node) :
      (Scene.ofSwitch context height place whole cases).allowed place .value node :=
    fun hstatement => nomatch hstatement
  have hyields := Statement.yields_switchStmt (P := fun _ => True) (hvalue subject)
    (fun _ _ _ _ => hvalue _) (fun case hcase node hnode _ => ⟨case, hcase, hnode⟩)
    whole.node.range
  obtain ⟨trace, htrace, -⟩ := hyields.explained whole.state ⟨hplace, fun _ _ => .inl⟩
  have hmem : part ∈ trace :=
    (asks_iff_of_explains (answeredBy_switchStmt hrole hc) htrace part).1 hasks
  obtain ⟨_, _, hallowed⟩ := htrace.allowed part hmem
  exact hallowed hpart

end Lowering

/-! ## Conversion -/

namespace Conversion

open Lowering (Place Visit Obstacle IsWithoutLastBreak)

/-- A visit for which this height is left below it asks for another one. -/
def AsksFor (settings : Settings) (dump : Dump.Node) (height : Nat) (whole part : Visit) : Prop :=
  Lowering.Asks (.ofRoot settings.droppedImports (ofDump settings dump).swift)
    (Lowering.descend height) whole part

/-- The nodes are made of the statements of a switch case in order, without a break at the end.
Each of the statements is reached in that case. -/
def MadeOfCase (settings : Settings) (dump : Dump.Node) (height : Nat) (place : Place)
    (body : List Swift.Node) (nodes : List Kotlin.Node) : Prop :=
  ∃ visits : List Visit, IsWithoutLastBreak body (visits.map Visit.node) ∧
    (∀ visit ∈ visits, visit.role = .statement ∧
      Reaches settings dump height { place with body := some .switchCase } visit) ∧
    nodes = visits.flatMap (made settings dump height)

theorem Reaches.becomes_breakStmt (h : Reaches settings dump height place visit)
    (hrole : visit.role = .statement) (hc : visit.node.construct = .breakStmt)
    (hbody : place.body ≠ some .switchCase) :
    Becomes settings dump height visit ⟨.breakStmt, visit.node.range⟩ := by
  obtain ⟨below, rfl⟩ := h.exists_succ
  have hplace := h.matches_surroundings
  exact h.becomes (congrArg Prod.fst (Lowering.outcome_breakStmt hplace hrole hc hbody))

theorem Reaches.becomes_whenStmt (h : Reaches settings dump (height + 1) place visit)
    (hrole : visit.role = .statement) (hc : visit.node.construct = .switchStmt subject cases) :
    ∃ lowered branches,
      Becomes settings dump (height + 1) visit
          ⟨.whenStmt (some lowered) branches, visit.node.range⟩ ∧
        List.Forall₂
          (fun case branch => MadeOfCase settings dump height place case.body branch.body)
          cases branches := by
  obtain ⟨lowered, branches, hmade, hbranches⟩ :=
    Lowering.outcome_switchStmt h.matches_surroundings hrole hc
  refine ⟨lowered, branches, h.becomes hmade, hbranches.imp fun case branch hcase => ?_⟩
  obtain ⟨visits, hnodes, hvisits, hanswers⟩ := hcase
  refine ⟨visits, hnodes ▸ Lowering.isWithoutLastBreak case.body, ?_, hanswers⟩
  intro part hpart
  have hreached := h.part (hvisits part hpart).2
  rw [hc, (hvisits part hpart).1] at hreached
  exact ⟨(hvisits part hpart).1, hreached⟩

/-- The innermost body around a break decides what becomes of it. In a switch case it is dropped at
the end and becomes a comment with an error anywhere else; in all other bodies it is kept. Only such
breaks are `break`s in the Kotlin file, and only such breaks are refused. -/
theorem ofDump_resolves_breaks (settings : Settings) (dump : Dump.Node) :
    (∀ height place visit, Reaches settings dump height place visit →
      visit.node.construct = .breakStmt → visit.role = .statement ∧
        if place.body = some .switchCase then
          Becomes settings dump height visit
              (.comment Obstacle.breakInCase.message visit.node.range) ∧
            ⟨.noEquivalent .breakInCase, visit.node.range⟩ ∈ (ofDump settings dump).diagnostics
        else Becomes settings dump height visit ⟨.breakStmt, visit.node.range⟩) ∧
    (∀ height place visit subject cases, Reaches settings dump (height + 1) place visit →
      visit.node.construct = .switchStmt subject cases → visit.role = .statement ∧
        ∃ lowered branches,
          Becomes settings dump (height + 1) visit
              ⟨.whenStmt (some lowered) branches, visit.node.range⟩ ∧
            List.Forall₂
              (fun case branch => MadeOfCase settings dump height place case.body branch.body)
              cases branches ∧
            ∀ part, AsksFor settings dump height visit part → part.role = .statement →
              ∃ case ∈ cases, ∃ rest, IsWithoutLastBreak case.body rest ∧ part.node ∈ rest) ∧
    (∀ range, (⟨.breakStmt, range⟩ : Kotlin.Node).OccursIn (ofDump settings dump).kotlin →
      ∃ height place visit, Reaches settings dump height place visit ∧
        visit.node.construct = .breakStmt ∧ place.body ≠ some .switchCase ∧
          visit.node.range = range) ∧
    (∀ range, ⟨.noEquivalent .breakInCase, range⟩ ∈ (ofDump settings dump).diagnostics →
      ∃ height place visit, Reaches settings dump height place visit ∧
        visit.node.construct = .breakStmt ∧ place.body = some .switchCase ∧
          visit.node.range = range) := by
  refine ⟨?_, ?_, ?_, ?_⟩
  · intro height place visit h hc
    have hrole := h.role_eq_statement hc
    refine ⟨hrole, ?_⟩
    split
    · next hbody =>
      exact h.refused hrole (Place.obstacle?_eq_breakInCase_iff.2 ⟨hc, hbody⟩)
    · next hbody => exact h.becomes_breakStmt hrole hc hbody
  · intro height place visit subject cases h hc
    have hrole := h.role_eq_statement hc
    obtain ⟨lowered, branches, hbecomes, hbranches⟩ := h.becomes_whenStmt hrole hc
    refine ⟨hrole, lowered, branches, hbecomes, hbranches, fun part hasks hpart => ?_⟩
    obtain ⟨case, hcase, hmem⟩ := Lowering.mem_withoutLastBreak_of_asks
      h.matches_surroundings hrole hc hasks hpart
    exact ⟨case, hcase, _, Lowering.isWithoutLastBreak case.body, hmem⟩
  · intro range hbreak
    have hmade := Lowering.occursAmong_of_occursIn_fileOf (by simp) hbreak
    obtain ⟨height, place, visit, h, -, hc, hbody, hrange⟩ :=
      Lowering.Reached.root.exists_of_break hmade
    exact ⟨height, place, visit, h, hc, hbody, hrange⟩
  · intro range hrefused
    obtain ⟨height, place, visit, h, -, hobstacle, hrange⟩ := exists_of_refusal rfl hrefused
    obtain ⟨hc, hbody⟩ := Place.obstacle?_eq_breakInCase_iff.1 hobstacle
    exact ⟨height, place, visit, h, hc, hbody, hrange⟩

-- In a loop, the first of two breaks in a case is refused and the second dropped, and a break after
-- the switch is kept.
example :
    let stop : Dump.Node := ⟨"break_stmt", [], [], none⟩
    let dump : Dump.Node := ⟨"source_file", [], [⟨"while_stmt", [], [
      ⟨"boolean_literal_expr", [("value", "true")], [], none⟩,
      ⟨"brace_stmt", [], [
        ⟨"switch_stmt", [], [⟨"declref_expr", [("name", "x")], [], none⟩,
          ⟨"case_stmt", [("default", "")], [⟨"brace_stmt", [], [stop, stop], none⟩], none⟩], none⟩,
        stop], none⟩], none⟩], none⟩
    (ofDump {} dump).kotlin =
      ⟨.file [⟨.whileStmt (.literal (.bool true) none) [
        ⟨.whenStmt (some (.reference "x" none))
          [⟨[], [.comment Obstacle.breakInCase.message none]⟩], none⟩,
        ⟨.breakStmt, none⟩], none⟩], none⟩ := by
  with_unfolding_all rfl

end Conversion

end SwiftToKotlin
