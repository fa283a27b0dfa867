import Mathlib.Data.List.Perm.Basic
import SwiftToKotlin.Proofs.Lowering.CaseNames

/-!
# The order of declarations

Where every name is declared once, what is known of the declared types does not depend on the order
of the declarations: each question is answered by the one declaration that has the name, wherever
that stands.
-/

namespace SwiftToKotlin.Lowering

open Swift (Node Ty TypeKind TypeDecl)

/-! ## Searches with one answer -/

section Search

variable {α β : Type} {first : List α}

/-- If all that can be found agrees, then a search finds whatever there is. -/
theorem findSome?_eq_some_iff_of_agree
    (hagree : ∀ a ∈ first, ∀ b ∈ first, ∀ x ∈ f a, ∀ y ∈ f b, x = y) :
    first.findSome? f = some x ↔ ∃ a ∈ first, f a = some x := by
  constructor
  · exact List.exists_of_findSome?_eq_some
  · rintro ⟨a, ha, hx⟩
    cases hfound : first.findSome? f with
    | none => simp [List.findSome?_eq_none_iff.1 hfound a ha] at hx
    | some y =>
      obtain ⟨b, hb, hy⟩ := List.exists_of_findSome?_eq_some hfound
      rw [hagree a ha b hb x hx y hy]

/-- A search by a key that no two elements share does not depend on their order. -/
theorem findSome?_eq_of_perm {κ : Type} (key : α → κ) (k : κ) (hperm : first.Perm second)
    (hnodup : (first.map key).Nodup) (hkey : ∀ a, ∀ x ∈ f a, key a = k) :
    first.findSome? f = second.findSome? f := by
  have hagree : ∀ a ∈ first, ∀ b ∈ first, ∀ x ∈ f a, ∀ y ∈ f b, x = y := by
    intro a ha b hb x hx y hy
    obtain rfl := List.inj_on_of_nodup_map hnodup ha hb ((hkey a x hx).trans (hkey b y hy).symm)
    exact Option.mem_unique hx hy
  have hagree' : ∀ a ∈ second, ∀ b ∈ second, ∀ x ∈ f a, ∀ y ∈ f b, x = y :=
    fun a ha b hb => hagree a (hperm.mem_iff.2 ha) b (hperm.mem_iff.2 hb)
  ext x
  rw [findSome?_eq_some_iff_of_agree hagree, findSome?_eq_some_iff_of_agree hagree']
  simp only [hperm.mem_iff]

/-- The only element of a list that has just one. -/
def sole? : List α → Option α
  | [a] => some a
  | _ => none

theorem sole?_eq_of_perm (hperm : first.Perm second) : sole? first = sole? second := by
  cases first with
  | nil => rw [hperm.nil_eq]
  | cons a rest =>
    cases rest with
    | nil => rw [List.singleton_perm.1 hperm]
    | cons b rest =>
      have hlength := hperm.length_eq
      cases second with
      | nil => simp at hlength
      | cons c others =>
        cases others with
        | nil => simp at hlength
        | cons d others => rfl

theorem eraseDups_eq_self [DecidableEq α] (hnodup : first.Nodup) : first.eraseDups = first := by
  induction first with
  | nil => rfl
  | cons a rest ih =>
    obtain ⟨ha, hrest⟩ := List.nodup_cons.1 hnodup
    have hkeep : rest.filter (fun b => !b == a) = rest :=
      List.filter_eq_self.2 fun b hb => by simpa using fun heq : b = a => ha (heq ▸ hb)
    rw [List.eraseDups_cons, hkeep, ih hrest]

end Search

/-! ## Declarations with distinct names -/

def Declaration.name : Declaration → String
  | .type _ decl => decl.name
  | .alias name _ => name

namespace DeclaredTypes

/-- No name is declared twice. -/
def Distinct (types : DeclaredTypes) : Prop :=
  (types.declarations.map Declaration.name).Nodup

/-- All questions about the declared types are answered alike. -/
structure SameAnswers (types other : DeclaredTypes) : Prop where
  isConstructible : ∀ name, types.isConstructible name = other.isConstructible name
  isType : ∀ name, types.isType name = other.isType name
  isProtocol : ∀ name, types.isProtocol name = other.isProtocol name
  isClass : ∀ name, types.isClass name = other.isClass name
  isSubclassed : ∀ name, types.isSubclassed name = other.isSubclassed name
  struct? : ∀ name, types.struct? name = other.struct? name
  enum? : ∀ name, types.enum? name = other.enum? name
  enumForCase : ∀ case, types.enumForCase case = other.enumForCase case
  argumentNames : ∀ name labels, types.argumentNames name labels = other.argumentNames name labels
  caseArgumentNames : ∀ enum case labels,
    types.caseArgumentNames enum case labels = other.caseArgumentNames enum case labels
  resolve : ∀ name, types.resolve name = other.resolve name

theorem names_ofKind_sublist (types : DeclaredTypes) (kind : TypeKind) :
    ((types.ofKind kind).map TypeDecl.name).Sublist (types.declarations.map Declaration.name) := by
  obtain ⟨declarations⟩ := types
  simp only [ofKind]
  induction declarations with
  | nil => exact .slnil
  | cons declaration rest ih =>
    rcases declaration with ⟨found, decl⟩ | ⟨name, ty⟩
    · by_cases hkind : found = kind
      · simpa [hkind, Declaration.name] using ih
      · simpa [hkind] using ih.cons _
    · simpa using ih.cons _

section Reordered

variable {types other : DeclaredTypes}

/-- In whatever order the enums are gone through, the only one with a case is found. -/
theorem enumForCase_eq_sole? (hdistinct : types.Distinct) {order : List String}
    (horder : order.Perm ((types.ofKind .enumType).map TypeDecl.name)) (case : String) :
    types.enumForCase case = sole? (order.filter (types.hasCase · case)) := by
  have hnodup : ((types.ofKind .enumType).map TypeDecl.name).Nodup :=
    hdistinct.sublist (names_ofKind_sublist types .enumType)
  have hsole : types.enumForCase case =
      sole? (((types.ofKind .enumType).map TypeDecl.name).eraseDups.filter
        (types.hasCase · case)) := by
    rw [enumForCase]
    generalize List.filter _ _ = owners
    cases owners with
    | nil => rfl
    | cons owner owners => cases owners <;> rfl
  rw [hsole, eraseDups_eq_self hnodup]
  exact sole?_eq_of_perm (horder.symm.filter _)

variable (hperm : types.declarations.Perm other.declarations) (hdistinct : types.Distinct)

include hperm hdistinct

theorem find?_eq_of_perm (kind : TypeKind) (name : String) :
    types.find? kind name = other.find? kind name := by
  have hofKind : (types.ofKind kind).Perm (other.ofKind kind) := hperm.filterMap _
  rw [find?, find?, List.find?_eq_findSome?_guard, List.find?_eq_findSome?_guard]
  refine findSome?_eq_of_perm TypeDecl.name name hofKind
    (hdistinct.sublist (names_ofKind_sublist types kind)) fun decl found hfound => ?_
  simpa using (Option.guard_eq_some_iff.1 hfound).2

theorem alias?_eq_of_perm (name : String) : types.alias? name = other.alias? name := by
  have hreverse : types.declarations.reverse.Perm other.declarations.reverse :=
    (List.reverse_perm _).trans (hperm.trans (List.reverse_perm _).symm)
  have hnodup : (types.declarations.reverse.map Declaration.name).Nodup := by
    rw [List.map_reverse, List.nodup_reverse]
    exact hdistinct
  refine findSome?_eq_of_perm Declaration.name name hreverse hnodup fun declaration ty hty => ?_
  rcases declaration with ⟨found, decl⟩ | ⟨found, aliased⟩
  · cases hty
  · exact (Option.ite_none_right_eq_some.1 hty).1

theorem constructors?_eq_of_perm (name : String) :
    types.constructors? name = other.constructors? name := by
  refine findSome?_eq_of_perm Declaration.name name hperm hdistinct fun declaration slots hslots => ?_
  rcases declaration with ⟨kind, decl⟩ | ⟨found, aliased⟩
  · cases kind with
    | structType => exact (Option.ite_none_right_eq_some.1 hslots).1
    | classType => exact (Option.ite_none_right_eq_some.1 hslots).1
    | enumType | protocolType => cases hslots
  · cases hslots

theorem hasCase_eq_of_perm (enum case : String) :
    types.hasCase enum case = other.hasCase enum case := by
  rw [hasCase, hasCase, case?, case?, enum?, enum?, find?_eq_of_perm hperm hdistinct]

theorem enumForCase_eq_of_perm {order : List String}
    (horder : order.Perm ((other.ofKind .enumType).map TypeDecl.name)) (case : String) :
    types.enumForCase case = sole? (order.filter (other.hasCase · case)) := by
  have hofKind : (types.ofKind .enumType).Perm (other.ofKind .enumType) := hperm.filterMap _
  rw [enumForCase_eq_sole? hdistinct (horder.trans (hofKind.map TypeDecl.name).symm)]
  simp only [hasCase_eq_of_perm hperm hdistinct]

theorem aliased?_eq_of_perm (name : String) : types.aliased? name = other.aliased? name := by
  rw [aliased?, aliased?, alias?_eq_of_perm hperm hdistinct]

theorem follow_eq_of_perm (steps : Nat) (name : String) :
    types.follow steps name = other.follow steps name := by
  induction steps generalizing name with
  | zero => rfl
  | succ steps ih =>
    rw [follow, follow, aliased?_eq_of_perm hperm hdistinct]
    cases other.aliased? name with
    | none => rfl
    | some next => exact ih next

theorem Distinct.of_perm : other.Distinct :=
  (hperm.map Declaration.name).nodup_iff.1 hdistinct

/-- Where no name is declared twice, the order of the declarations does not matter. -/
theorem sameAnswers_of_perm : types.SameAnswers other := by
  have hfind := find?_eq_of_perm hperm hdistinct
  have hclass (name : String) : types.isClass name = other.isClass name := by
    rw [isClass, isClass, hfind]
  have hprotocol (name : String) : types.isProtocol name = other.isProtocol name := by
    rw [isProtocol, isProtocol, hfind]
  have hconstructible (name : String) :
      types.isConstructible name = other.isConstructible name := by
    rw [isConstructible, isConstructible, struct?, struct?, enum?, enum?, hfind, hfind, hclass]
  have hclasses : (types.ofKind .classType).Perm (other.ofKind .classType) := hperm.filterMap _
  exact
    { isConstructible := hconstructible
      isType := fun name => by
        rw [isType, isType, hconstructible, hprotocol, alias?_eq_of_perm hperm hdistinct]
      isProtocol := hprotocol
      isClass := hclass
      isSubclassed := fun name => by
        rw [isSubclassed, isSubclassed, hclass, hclasses.any_eq]
      struct? := hfind .structType
      enum? := hfind .enumType
      enumForCase := fun case => by
        rw [enumForCase_eq_of_perm hperm hdistinct (List.Perm.refl _),
          enumForCase_eq_sole? (hdistinct.of_perm hperm) (List.Perm.refl _)]
      argumentNames := fun name labels => by
        rw [argumentNames, argumentNames, constructors?_eq_of_perm hperm hdistinct]
      caseArgumentNames := fun enum case labels => by
        rw [caseArgumentNames, caseArgumentNames, case?, case?, enum?, enum?, hfind]
      resolve := follow_eq_of_perm hperm hdistinct 8 }

end Reordered

/-- The items of a file may be put in another order, and enums be gone through in any order, as long
as no name is declared twice: every question about the declared types is answered alike. -/
theorem ofTree_indifferent_to_order {items reordered : List Node} {range other : Option SourceRange}
    (hperm : items.Perm reordered) (hdistinct : (ofTree ⟨.file items, range⟩).Distinct) :
    (ofTree ⟨.file items, range⟩).SameAnswers (ofTree ⟨.file reordered, other⟩) ∧
      ∀ (order : List String) (case : String),
        order.Perm (((ofTree ⟨.file reordered, other⟩).ofKind .enumType).map TypeDecl.name) →
        (ofTree ⟨.file items, range⟩).enumForCase case =
          sole? (order.filter ((ofTree ⟨.file reordered, other⟩).hasCase · case)) := by
  have hdeclarations : (ofTree ⟨.file items, range⟩).declarations.Perm
      (ofTree ⟨.file reordered, other⟩).declarations := by
    simp only [ofTree, Lowering.declarations, allDeclarations_eq_flatMap]
    exact hperm.flatMap_right Lowering.declarations
  exact ⟨sameAnswers_of_perm hdeclarations hdistinct, fun order case horder =>
    enumForCase_eq_of_perm hdeclarations hdistinct horder case⟩

/-- An alias may stand before the struct that it names, and an enum in an extension between them. -/
theorem ofTree_indifferent_to_alias_first :
    let point : Node := ⟨.typeDecl .structType ⟨"Point", [], []⟩, none⟩
    let axis : Node := ⟨.typeDecl .enumType ⟨"Axis", [], [⟨.enumCase ⟨"x", [], none⟩, none⟩]⟩, none⟩
    let nested : Node := ⟨.extensionDecl "Point" [axis], none⟩
    let spot : Node := ⟨.typeAlias "Spot" (.named "Point" []), none⟩
    let types := ofTree ⟨.file [point, nested, spot], none⟩
    let reordered := ofTree ⟨.file [spot, nested, point], none⟩
    [point, nested, spot].Perm [spot, nested, point] ∧ types.Distinct ∧
      types.resolve "Spot" = "Point" ∧ types.enumForCase "x" = some "Axis" ∧
      types.SameAnswers reordered ∧
      ∀ (order : List String) (case : String),
        order.Perm ((reordered.ofKind .enumType).map TypeDecl.name) →
        types.enumForCase case = sole? (order.filter (reordered.hasCase · case)) := by
  intro point axis nested spot types reordered
  have hperm : [point, nested, spot].Perm [spot, nested, point] := List.reverse_perm [spot, nested, point]
  have hdistinct : types.Distinct := by
    simp [types, point, axis, nested, spot, Distinct, ofTree, Lowering.declarations, allDeclarations,
      Declaration.name]
  exact ⟨hperm, hdistinct, by decide, by decide, ofTree_indifferent_to_order hperm hdistinct⟩

end DeclaredTypes

end SwiftToKotlin.Lowering
