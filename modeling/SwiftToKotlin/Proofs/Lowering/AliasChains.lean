import Mathlib.Data.List.Perm.Subperm
import Mathlib.Logic.Relation
import SwiftToKotlin.Proofs.Lowering.CaseNames

/-!
# Chains of aliases

An alias of a named type leads to that name, which may be an alias again. If no name leads back to
itself then every chain of aliases ends, after at most as many links as there are aliases. To
resolve a name is to go along its chain for at most eight links: the end of the chain is reached
exactly if the chain is no longer than that. Where names do lead back to themselves, resolving still
stops at a name of the chain.
-/

namespace SwiftToKotlin.Lowering.DeclaredTypes

open Swift (Node Ty)

/-! ## Links and chains -/

/-- The name is an alias of a named type, which has the name `next`. -/
def Links (types : DeclaredTypes) (name next : String) : Prop :=
  (types.alias? name).bind Ty.name? = some next

/-- The name is no alias of a named type. -/
def IsFinal (types : DeclaredTypes) (name : String) : Prop :=
  ∀ next, ¬ types.Links name next

/-- No name leads back to itself. -/
def Acyclic (types : DeclaredTypes) : Prop :=
  ∀ name, ¬ Relation.TransGen types.Links name name

/-- So many links lead from one name to another. -/
inductive Chain (types : DeclaredTypes) : Nat → String → String → Prop
  | nil (name : String) : Chain types 0 name name
  | cons {n : Nat} {name next last : String} (hlink : types.Links name next)
      (hrest : Chain types n next last) : Chain types (n + 1) name last

variable {types : DeclaredTypes} {n : Nat}

theorem Links.unique (h : types.Links name next) (h' : types.Links name other) : next = other :=
  Option.some.inj (h.symm.trans h')

theorem aliased?_eq_some_iff :
    types.aliased? name = some next ↔ types.Links name next ∧ next ≠ name := by
  rw [aliased?, Option.filter_eq_some_iff, bne_iff_ne]
  rfl

namespace Chain

theorem reflTransGen (h : types.Chain n name last) :
    Relation.ReflTransGen types.Links name last := by
  induction h with
  | nil name => exact .refl
  | cons hlink _ ih => exact .head hlink ih

theorem transGen (h : types.Chain (n + 1) name last) : Relation.TransGen types.Links name last := by
  cases h with
  | cons hlink hrest => exact .head' hlink hrest.reflTransGen

/-- A chain that begins like one with an end is part of it. -/
theorem exists_rest (h : types.Chain m name middle) (hall : types.Chain n name last)
    (hlast : types.IsFinal last) :
    ∃ k, n = m + k ∧ types.Chain k middle last := by
  induction h generalizing n with
  | nil name => exact ⟨n, (Nat.zero_add n).symm, hall⟩
  | cons hlink _ ih =>
    cases hall with
    | nil => exact absurd hlink (hlast _)
    | cons hother hrest =>
      obtain rfl := hlink.unique hother
      obtain ⟨k, rfl, hk⟩ := ih hrest
      exact ⟨k, by omega, hk⟩

end Chain

/-! ## Chains without a cycle -/

/-- The names that are declared as aliases. -/
def aliasNames (types : DeclaredTypes) : List String :=
  types.declarations.filterMap fun
    | .alias name _ => some name
    | .type _ _ => none

theorem mem_declarations_of_links (h : types.Links name next) :
    ∃ ty, .alias name ty ∈ types.declarations ∧ ty.name? = some next := by
  obtain ⟨ty, halias, hname⟩ := Option.bind_eq_some_iff.1 h
  obtain ⟨declaration, hmem, hfound⟩ := List.exists_of_findSome?_eq_some halias
  rw [List.mem_reverse] at hmem
  rcases declaration with ⟨kind, decl⟩ | ⟨found, aliased⟩
  · cases hfound
  · obtain ⟨rfl, hty⟩ := Option.ite_none_right_eq_some.1 hfound
    obtain rfl := Option.some.inj hty
    exact ⟨aliased, hmem, hname⟩

theorem mem_aliasNames_of_links (h : types.Links name next) : name ∈ types.aliasNames := by
  obtain ⟨ty, hmem, -⟩ := mem_declarations_of_links h
  exact List.mem_filterMap.2 ⟨_, hmem, rfl⟩

theorem acyclic_of_rank (rank : String → Nat)
    (h : ∀ name next, types.Links name next → rank name < rank next) : types.Acyclic := by
  intro name hcycle
  have hrank : ∀ last, Relation.TransGen types.Links name last → rank name < rank last := by
    intro last hlast
    induction hlast with
    | single hlink => exact h _ _ hlink
    | tail _ hlink ih => exact Nat.lt_trans ih (h _ _ hlink)
  exact Nat.lt_irrefl _ (hrank name hcycle)

section

variable (h : types.Acyclic)

include h

theorem Acyclic.ne_of_links (hlink : types.Links name next) : next ≠ name := by
  rintro rfl
  exact h next (.single hlink)

theorem Acyclic.aliased?_eq_none_iff : types.aliased? name = none ↔ types.IsFinal name := by
  rw [Option.eq_none_iff_forall_ne_some]
  refine forall_congr' fun next => not_congr ?_
  rw [aliased?_eq_some_iff]
  exact and_iff_left_of_imp h.ne_of_links

/-- A chain has passed as many different aliases as it has links. -/
theorem Acyclic.exists_passed (hchain : types.Chain n name last) :
    ∃ passed : List String, passed.length = n ∧ passed.Nodup ∧
      ∀ other ∈ passed, other ∈ types.aliasNames ∧ Relation.ReflTransGen types.Links name other := by
  induction hchain with
  | nil name => exact ⟨[], rfl, List.nodup_nil, by simp⟩
  | @cons n name next last hlink _ ih =>
    obtain ⟨passed, hlength, hnodup, hpassed⟩ := ih
    have hnew : name ∉ passed := by
      intro hmem
      exact h name (.head' hlink (hpassed name hmem).2)
    refine ⟨name :: passed, by rw [List.length_cons, hlength], hnodup.cons hnew, ?_⟩
    rintro other (_ | ⟨_, hother⟩)
    · exact ⟨mem_aliasNames_of_links hlink, .refl⟩
    · exact ⟨(hpassed other hother).1, .head hlink (hpassed other hother).2⟩

theorem Acyclic.length_le (hchain : types.Chain n name last) : n ≤ types.aliasNames.length := by
  obtain ⟨passed, rfl, hnodup, hpassed⟩ := h.exists_passed hchain
  exact (List.subperm_of_subset hnodup fun other hother => (hpassed other hother).1).length_le

end

/-! ## Following and resolving -/

/-- Following goes along the chain of a name, and stops early only at a name that leads nowhere
else. -/
theorem exists_chain_follow (types : DeclaredTypes) (steps : Nat) (name : String) :
    ∃ n ≤ steps, types.Chain n name (types.follow steps name) ∧
      (n = steps ∨ types.aliased? (types.follow steps name) = none) := by
  induction steps generalizing name with
  | zero => exact ⟨0, Nat.le_refl 0, .nil name, .inl rfl⟩
  | succ steps ih =>
    rw [follow]
    cases hnext : types.aliased? name with
    | none => exact ⟨0, Nat.zero_le _, .nil name, .inr hnext⟩
    | some next =>
      obtain ⟨n, hle, hchain, hstop⟩ := ih next
      refine ⟨n + 1, by omega, .cons (aliased?_eq_some_iff.1 hnext).1 hchain, ?_⟩
      exact hstop.imp_left fun heq => by rw [heq]

theorem Acyclic.exists_end (h : types.Acyclic) (name : String) :
    ∃ links last, types.Chain links name last ∧ types.IsFinal last := by
  obtain ⟨links, -, hchain, hstop⟩ :=
    exists_chain_follow types (types.aliasNames.length + 1) name
  refine ⟨links, _, hchain, h.aliased?_eq_none_iff.1 (hstop.resolve_left fun heq => ?_)⟩
  have hlength := h.length_le hchain
  omega

/-- Resolving stops at the end of the chain or after eight links. -/
theorem Acyclic.exists_chain_resolve (h : types.Acyclic) (name : String) :
    ∃ n ≤ 8, types.Chain n name (types.resolve name) ∧
      (n = 8 ∨ types.IsFinal (types.resolve name)) := by
  obtain ⟨n, hle, hchain, hstop⟩ := exists_chain_follow types 8 name
  exact ⟨n, hle, hchain, hstop.imp_right h.aliased?_eq_none_iff.1⟩

theorem Acyclic.resolve_resolve_iff (h : types.Acyclic) :
    types.resolve (types.resolve name) = types.resolve name ↔
      types.IsFinal (types.resolve name) := by
  constructor
  · intro heq next hlink
    obtain ⟨n, -, hchain, hstop⟩ := h.exists_chain_resolve (types.resolve name)
    rw [heq] at hchain hstop
    cases n with
    | zero => exact hstop.elim (fun h => by omega) fun hfinal => hfinal next hlink
    | succ n => exact h _ hchain.transGen
  · intro hfinal
    exact resolve_eq_self (h.aliased?_eq_none_iff.2 hfinal)

/-- Each name is an alias of the next one. -/
def ofAliases (names : List String) : DeclaredTypes :=
  .ofTree ⟨.file ((names.zip names.tail).map fun pair =>
    ⟨.typeAlias pair.1 (.named pair.2 []), none⟩), none⟩

theorem declarations_ofAliases (names) :
    (ofAliases names).declarations =
      (names.zip names.tail).map fun pair => .alias pair.1 (.named pair.2 []) := by
  rw [ofAliases, ofTree, Lowering.declarations, allDeclarations_eq_flatMap, List.flatMap_map,
    List.map_eq_flatMap]
  rfl

theorem acyclic_ofAliases (h : names.Nodup) : (ofAliases names).Acyclic := by
  refine acyclic_of_rank names.idxOf fun name next hlink => ?_
  obtain ⟨ty, hmem, hname⟩ := mem_declarations_of_links hlink
  simp only [declarations_ofAliases, List.mem_map] at hmem
  obtain ⟨pair, hpair, rfl, rfl⟩ := hmem
  obtain rfl : pair.2 = next := Option.some.inj hname
  obtain ⟨i, hi, rfl⟩ := List.mem_iff_getElem.1 hpair
  simp only [List.getElem_zip, List.getElem_tail, h.idxOf_getElem]
  omega

end SwiftToKotlin.Lowering.DeclaredTypes
