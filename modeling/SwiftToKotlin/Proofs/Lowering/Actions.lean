import Mathlib.Order.Defs.Unbundled
import SwiftToKotlin.Lowering.TypeBody

/-!
# Actions of lowering that keep a relation

Lowering is written as actions on a state. A relation between the state before and the state after
is kept by a whole action if it is kept by each of its steps, provided that it is reflexive and
transitive.
-/

namespace SwiftToKotlin.Lowering

/-- The state with other surroundings. -/
abbrev State.amid (state : State) (change : Surroundings → Surroundings) : State :=
  { state with surroundings := change state.surroundings }

/-- The state with a new block of locals. -/
abbrev State.opened (state : State) : State :=
  { state with locals := .empty :: state.locals }

/-- The state in which the body of a closure begins. -/
abbrev State.enclosed (state : State) : State :=
  { state.opened with
    surroundings :=
      { state.surroundings with
        closureDepth := state.surroundings.closureDepth + 1, inCase := false }
    anonymousMax := none }

variable {α β : Type}

/-- The state after the action is related to the state before it. -/
def Keeps (R : State → State → Prop) (action : Lower α) : Prop :=
  ∀ context state, R state ((action.run context).run state).2

namespace Keeps

theorem mono (h : Keeps R action) (hRS : ∀ s t, R s t → S s t) :
    Keeps S action :=
  fun context state => hRS _ _ (h context state)

variable [IsPreorder State R]

/-- Actions that only look keep every such relation. -/
theorem of_run_eq {action : Lower α}
    (h : ∀ context state, ((action.run context).run state).2 = state) : Keeps R action := by
  intro context state
  rw [h]
  exact refl state

theorem pure (a : α) : Keeps R (Pure.pure a) :=
  of_run_eq fun _ _ => rfl

theorem bind (h : Keeps R action) (hf : ∀ a, Keeps R (f a)) :
    Keeps R (action >>= f) :=
  fun context state => IsTrans.trans _ _ _ (h context state) (hf _ context _)

theorem mapM (items : List α) (h : ∀ a, Keeps R (f a)) :
    Keeps R (items.mapM f) := by
  induction items with
  | nil => exact pure []
  | cons item rest ih =>
    rw [List.mapM_cons]
    exact (h item).bind fun _ => ih.bind fun _ => pure _

theorem forM (items : List α) (h : ∀ a, Keeps R (f a)) : Keeps R (items.forM f) := by
  induction items with
  | nil => exact pure _
  | cons item rest ih => exact (h item).bind fun _ => ih

theorem optionM (item : Option α) (h : ∀ a, Keeps R (f a)) :
    Keeps R (Swift.optionM f item) := by
  cases item with
  | none => exact pure none
  | some a => exact (h a).bind fun _ => pure _

end Keeps

theorem run_declareFresh (name : String) (ty context state) :
    ((declareFresh name ty).run context).run state =
      (identifier (state.locals.declareFresh name ty).2,
        { state with locals := (state.locals.declareFresh name ty).1 }) :=
  rfl

section Looking

variable [IsPreorder State R]

theorem keeps_types : Keeps R types :=
  .of_run_eq fun _ _ => rfl

theorem keeps_read : Keeps R (read : Lower Context) :=
  .of_run_eq fun _ _ => rfl

theorem keeps_surroundings : Keeps R surroundings :=
  .of_run_eq fun _ _ => rfl

theorem keeps_typeOf (node) : Keeps R (typeOf node) :=
  .of_run_eq fun _ _ => rfl

theorem keeps_enumOf (node) : Keeps R (enumOf node) :=
  .of_run_eq fun _ _ => rfl

theorem keeps_casePattern (node) : Keeps R (casePattern node) :=
  .of_run_eq fun _ _ => rfl

theorem keeps_placedStruct (node) : Keeps R (Descent.placedStruct node) := by
  unfold Descent.placedStruct
  split
  · exact .pure _
  · exact keeps_types.bind fun _ => (keeps_typeOf _).bind fun _ => .pure _

theorem Call.keeps_isText (node) : Keeps R (isText node) :=
  (keeps_typeOf node).bind fun _ => .pure _

theorem Statement.keeps_boundType (value) : Keeps R (boundType value) :=
  (keeps_typeOf value).bind fun _ => .pure _

theorem Function.keeps_variableType (decl) : Keeps R (variableType decl) := by
  unfold variableType
  split
  · exact .pure _
  · exact keeps_typeOf _
  · exact .pure _

end Looking

section Reporting

variable [IsPreorder State R]

theorem Call.keeps_warnOfDropped (hwarn : ∀ mismatch range, Keeps R (warn mismatch range))
    (argument) : Keeps R (warnOfDropped argument) := by
  unfold warnOfDropped
  split
  · split
    · exact .pure _
    · exact hwarn _ _
  · exact .pure _

variable (hty : ∀ ty range, Keeps R (lowerTy ty range))

include hty

theorem TypeBody.keeps_propertyType (decl range) : Keeps R (propertyType decl range) := by
  refine (Function.keeps_variableType decl).bind fun _ => ?_
  split
  · exact hty _ _
  · exact .pure _

theorem TypeBody.keeps_extensionReceiver (extended : String) (range) :
    Keeps R (extensionReceiver extended range) := by
  unfold extensionReceiver
  split
  · exact hty _ _
  · exact .pure _

end Reporting

end SwiftToKotlin.Lowering
