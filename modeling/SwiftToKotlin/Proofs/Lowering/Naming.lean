import SwiftToKotlin.Proofs.Kotlin.DeclaredNames
import SwiftToKotlin.Proofs.Lowering.Actions
import SwiftToKotlin.Proofs.Swift.DeclaredNames

/-!
# Actions that declare names

Where the names in a lowered tree come from: a name is the identifier of a name of the source, or it
is made up in one of a few ways. An action keeps to a kind of names if its result does, as long as
the names of the cases that are settled so far do.
-/

namespace SwiftToKotlin.Lowering

open Swift (Node Ty)

variable {α β : Type}

/-- The names that are declared in Kotlin without a counterpart in Swift. -/
def suppliedNames : List String :=
  ["equals", "error", "hashCode", "ignored", "other", "rawValue"]

/-- The names of the source are of the first kind, and all names that can be declared for them are
of the second. -/
structure Naming (S Q : String → Prop) : Prop where
  own : ∀ {source : String}, S source → Q (identifier source)
  numbered : ∀ (source : String) (number : Nat), Q (identifier s!"{source}{number}")
  anonymous : ∀ index : Nat, Q (anonymousName index)
  ofCase : ∀ (style : CaseStyle) (source : String), Q (style.apply source)
  supplied : ∀ name ∈ suppliedNames, Q name

/-! ## The table of cases -/

/-- No case is settled or forgotten in between. -/
def SameCases (s t : State) : Prop :=
  t.cases = s.cases

instance : IsPreorder State SameCases where
  refl _ := rfl
  trans _ _ _ h h' := h'.trans h

theorem sameCases_report (cause : Cause) (range) : Keeps SameCases (report cause range) :=
  fun _ _ => rfl

/-- All cases that are settled have names of the kind. -/
def CaseTable.NamesOnly (Q : String → Prop) (table : CaseTable) : Prop :=
  ∀ entry ∈ table.entries, Q entry.2

theorem CaseTable.namesOnly_empty : CaseTable.empty.NamesOnly Q := by
  simp [NamesOnly, empty]

theorem CaseTable.NamesOnly.name {table : CaseTable} (h : table.NamesOnly Q) (naming : Naming S Q)
    (enum case : String) (style) :
    Q (table.name enum case style).1 ∧ (table.name enum case style).2.NamesOnly Q := by
  unfold CaseTable.name
  split
  · next name hname =>
    obtain ⟨before, after, hentries, -⟩ := List.lookup_eq_some_iff.1 hname
    exact ⟨h (key enum case, name) (by simp [hentries]), h⟩
  · exact ⟨naming.ofCase style _, List.forall_mem_cons.2 ⟨naming.ofCase style _, h⟩⟩

/-! ## What actions ensure -/

/-- Given names of the kind in the table of cases, the table stays so and the result is as
stated. -/
def Ensures (Q : String → Prop) (action : Lower α) (P : α → Prop) : Prop :=
  ∀ context (state : State), state.cases.NamesOnly Q →
    ((action.run context).run state).2.cases.NamesOnly Q ∧
      P ((action.run context).run state).1

namespace Ensures

theorem pure (h : P a) : Ensures Q (Pure.pure a) P :=
  fun _ _ hstate => ⟨hstate, h⟩

theorem bind (h : Ensures Q action P)
    (hf : ∀ a, P a → Ensures Q (f a) P') : Ensures Q (action >>= f) P' := by
  intro context state hstate
  obtain ⟨hnext, hresult⟩ := h context state hstate
  exact hf _ hresult context _ hnext

/-- An action that settles no cases. -/
theorem of_sameCases {action : Lower α} (h : Keeps SameCases action)
    (hresult : ∀ context state, P ((action.run context).run state).1) : Ensures Q action P := by
  intro context state hstate
  have hsame : ((action.run context).run state).2.cases = state.cases := h context state
  exact ⟨hsame ▸ hstate, hresult context state⟩

theorem mono (h : Ensures Q action P) (hP : ∀ a, P a → P' a) :
    Ensures Q action P' :=
  fun context state hstate => (h context state hstate).imp_right (hP _)

theorem surrounded (h : Ensures Q action P) : Ensures Q (surrounded change action) P :=
  fun context state => h context (state.amid change)

theorem inBlock (h : Ensures Q action P) : Ensures Q (inBlock action) P :=
  fun context state => h context state.opened

theorem inClosure (h : Ensures Q action P) :
    Ensures Q (inClosure action) fun result => P result.1 :=
  fun context state => h context state.enclosed

end Ensures

/-! ## Names that are given -/

theorem Locals.exists_freshFrom_eq (taken) (name : String) (tries suffix : Nat) :
    ∃ number : Nat, freshFrom taken name tries suffix = s!"{name}{number}" := by
  induction tries generalizing suffix with
  | zero => exact ⟨suffix, rfl⟩
  | succ tries ih =>
    rw [freshFrom]
    split
    · exact ih (suffix + 1)
    · exact ⟨suffix, rfl⟩

variable (naming : Naming S Q)

include naming

theorem nameCase_ensures (enum case : String) (style) : Ensures Q (nameCase enum case style) Q :=
  fun _ _ hstate => (hstate.name naming enum case style).symm

/-- A local that stays in scope is declared under its own name or a numbered one. -/
theorem declareFresh_ensures (h : S name) (ty) :
    Ensures Q (declareFresh name ty) Q := by
  intro context state hstate
  rw [run_declareFresh]
  refine ⟨hstate, ?_⟩
  dsimp only
  unfold Locals.declareFresh
  split
  · exact naming.own h
  · split
    · obtain ⟨number, hnumber⟩ := Locals.exists_freshFrom_eq _ name _ 2
      rw [Locals.fresh, hnumber]
      exact naming.numbered name number
    · exact naming.own h

end SwiftToKotlin.Lowering
