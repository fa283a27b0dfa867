import SwiftToKotlin.Proofs.Lowering.Refusals

/-!
# Stored variables

A stored variable becomes a property with its initial value, and as a member of an extension it is
refused. What counts is the innermost declaration with members around the variable. So a local of a
function is refused as well if that function is in an extension, with no type in between.
-/

namespace SwiftToKotlin

namespace Lowering

open Swift (Node)

/-! ## Single variables -/

namespace Function

/-- A property with nothing but a type and an initial value. -/
def plainProperty (decl : Swift.VariableDecl Node) (ty : Option Kotlin.Ty)
    (init : Option Kotlin.Node) : Kotlin.PropertyDef Kotlin.Node :=
  { name := identifier decl.name, binding := binding decl.isLet, ty, init }

theorem storedProperty_run (known ty) :
    ∃ init, (((storedProperty descent decl known ty range).run context).run state).1 =
        ⟨.property (plainProperty decl ty init), range⟩ ∧
      init.isSome = decl.init.isSome := by
  unfold storedProperty
  cases decl.init with
  | none => exact ⟨none, rfl, rfl⟩
  | some value => exact ⟨some _, rfl, rfl⟩

/-- Outside of extensions a stored variable is a property. -/
theorem variableDecl_run_of_stored (hstored : decl.isStored = true)
    (h : state.surroundings.scope.receiver?.isSome = false) :
    ∃ ty init, (((variableDecl descent decl range).run context).run state).1 =
        ⟨.property (plainProperty decl ty init), range⟩ ∧
      ty.isSome = decl.ty.isSome ∧ init.isSome = decl.init.isSome := by
  obtain ⟨known, hknown⟩ := variableType_run decl context state
  have hrun : ((variableDecl descent decl range).run context).run state =
      ((Swift.optionM (lowerTy · range) decl.ty >>= fun ty =>
        storedProperty descent decl known ty range).run context).run state := by
    unfold variableDecl
    rw [ReaderT.run_bind, StateT.run_bind, hknown]
    change ((if (decl.isStored && state.surroundings.scope.receiver?.isSome) = true then _
      else _ : Lower Kotlin.Node).run context).run state = _
    rw [if_neg (by simp [h])]
    simp only [hstored, if_true]
  rw [hrun]
  cases decl.ty with
  | none =>
    obtain ⟨init, hnode, hinit⟩ := storedProperty_run known none
    exact ⟨none, init, hnode, rfl, hinit⟩
  | some ty =>
    obtain ⟨init, hnode, hinit⟩ := storedProperty_run known
      (some (((lowerTy ty range).run context).run state).1)
    exact ⟨some _, init, hnode, rfl, hinit⟩

end Function

variable {place : Place}

theorem Place.obstacle?_eq_storedPropertyInExtension_iff
    :
    place.obstacle? construct = some (.storedPropertyInExtension name) ↔
      ∃ decl, construct = .variableDecl decl ∧ decl.isStored = true ∧ decl.name = name ∧
        place.owner = .extension := by
  unfold Place.obstacle?
  split <;> grind

/-- A stored variable that its place does not refuse is a property. -/
theorem outcome_stored (hplace : place.Matches visit.state.surroundings)
    (hrole : visit.role = .statement) (hc : visit.node.construct = .variableDecl decl)
    (hstored : decl.isStored = true) (howner : place.owner ≠ .extension) :
    ∃ ty init, ((descend (height + 1)).outcome context visit).1 =
        [⟨.property (Function.plainProperty decl ty init), visit.node.range⟩] ∧
      ty.isSome = decl.ty.isSome ∧ init.isSome = decl.init.isSome := by
  have hscope : visit.state.surroundings.scope.receiver?.isSome = false := by
    refine Bool.eq_false_iff.2 fun h => howner ?_
    exact hplace.owner.symm.trans ((Scope.isSome_receiver?_iff _).1 h)
  obtain ⟨ty, init, hnode, hparts⟩ := Function.variableDecl_run_of_stored hstored hscope
  refine ⟨ty, init, ?_, hparts⟩
  rw [outcome_of_one hrole (by simp only [lowerStatement, hc]; rfl), hnode]

end Lowering

/-! ## Conversion -/

namespace Conversion

open Lowering (Obstacle Place Visit)

theorem Reaches.becomes_property (h : Reaches settings dump height place visit)
    (hrole : visit.role = .statement) (hc : visit.node.construct = .variableDecl decl)
    (hstored : decl.isStored = true) (howner : place.owner ≠ .extension) :
    ∃ ty init, Becomes settings dump height visit
        ⟨.property (Lowering.Function.plainProperty decl ty init), visit.node.range⟩ ∧
      ty.isSome = decl.ty.isSome ∧ init.isSome = decl.init.isSome := by
  obtain ⟨below, rfl⟩ := h.exists_succ
  obtain ⟨ty, init, hmade, hparts⟩ :=
    Lowering.outcome_stored h.matches_surroundings hrole hc hstored howner
  exact ⟨ty, init, h.becomes hmade, hparts⟩

/-- A stored variable that is reached as a statement is refused if the innermost declaration with
members around it is an extension, and becomes a property otherwise. There is no such error without
such a variable. -/
theorem ofDump_refuses_stored_in_extensions (settings : Settings) (dump : Dump.Node) :
    (∀ height place visit decl, Reaches settings dump height place visit →
      visit.node.construct = .variableDecl decl → decl.isStored = true →
        visit.role = .statement ∧
        if place.owner = .extension then
          Becomes settings dump height visit
              (.comment (Obstacle.storedPropertyInExtension decl.name).message visit.node.range) ∧
            ⟨.noEquivalent (.storedPropertyInExtension decl.name), visit.node.range⟩ ∈
              (ofDump settings dump).diagnostics
        else
          ∃ property : Kotlin.PropertyDef Kotlin.Node,
            Becomes settings dump height visit ⟨.property property, visit.node.range⟩ ∧
            property.name = Lowering.identifier decl.name ∧
            property.binding = Lowering.Function.binding decl.isLet ∧
            property.ty.isSome = decl.ty.isSome ∧ property.init.isSome = decl.init.isSome ∧
            property.receiver = none ∧ property.getter = none ∧ property.setter = none) ∧
    (∀ name range, ⟨.noEquivalent (.storedPropertyInExtension name), range⟩ ∈
        (ofDump settings dump).diagnostics →
      ∃ height place visit decl, Reaches settings dump height place visit ∧
        visit.node.construct = .variableDecl decl ∧ decl.isStored = true ∧ decl.name = name ∧
          place.owner = .extension ∧ visit.node.range = range) := by
  constructor
  · intro height place visit decl h hc hstored
    have hrole := h.role_eq_statement hc
    refine ⟨hrole, ?_⟩
    split
    · next howner =>
      exact h.refused hrole (Place.obstacle?_eq_storedPropertyInExtension_iff.2
        ⟨decl, hc, hstored, rfl, howner⟩)
    · next howner =>
      obtain ⟨ty, init, hproperty, hty, hinit⟩ := h.becomes_property hrole hc hstored howner
      refine ⟨_, hproperty, ?_⟩
      simp [Lowering.Function.plainProperty, hty, hinit]
  · intro name range htold
    obtain ⟨height, place, visit, h, -, hobstacle, hrange⟩ := exists_of_refusal rfl htold
    obtain ⟨decl, hc, hstored, hname, howner⟩ :=
      Place.obstacle?_eq_storedPropertyInExtension_iff.1 hobstacle
    exact ⟨height, place, visit, decl, h, hc, hstored, hname, howner, hrange⟩

/-- A function of an extension with a local constant. -/
def localInExtension : Dump.Node :=
  ⟨"source_file", [], [⟨"extension_decl", [("type", "Int")], [⟨"func_decl", [("name", "f")],
    [⟨"brace_stmt", [], [⟨"var_decl", [("name", "x"), ("let", "")],
      [⟨"integer_literal_expr", [("value", "1")], [], none⟩], none⟩], none⟩], none⟩], none⟩], none⟩

/-- The local is refused as if it was a property of the extension. -/
theorem local_in_extension_refused :
    (ofDump {} localInExtension).kotlin =
        ⟨.file [⟨.function
          { name := "f", receiver := some (.named "Int" []), params := [], returnType := none
            body := some [.comment (Obstacle.storedPropertyInExtension "x").message none]
            modifiers := [] }, none⟩], none⟩ ∧
      (ofDump {} localInExtension).diagnostics =
        [⟨.noEquivalent (.storedPropertyInExtension "x"), none⟩] := by
  with_unfolding_all exact ⟨rfl, rfl⟩

end Conversion

end SwiftToKotlin
