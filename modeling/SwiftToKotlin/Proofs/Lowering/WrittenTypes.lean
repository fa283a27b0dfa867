import SwiftToKotlin.Proofs.Lowering.Visits
import SwiftToKotlin.Proofs.Swift.TyNotation

/-!
# Names in written types

The type that is written for a Swift type has the names of the types in it, each looked up in a
table of names that Kotlin spells differently. A class is declared under an identifier instead,
which is escaped where it is a keyword. The two agree on a name exactly if neither of them changes
it.
-/

namespace SwiftToKotlin

/-! ## The names in a type -/

mutual

/-- The names in a Kotlin type, in order. -/
def Kotlin.Ty.names : Kotlin.Ty → List String
  | .named name args => name :: allNames args
  | .nullable inner => names inner
  | .function params result => allNames params ++ names result

def Kotlin.Ty.allNames : List Kotlin.Ty → List String
  | [] => []
  | ty :: rest => names ty ++ allNames rest

end

theorem Kotlin.Ty.names_orNull (ty : Kotlin.Ty) : ty.orNull.names = ty.names := by
  cases ty <;> simp [orNull, names]

namespace Lowering

open Swift (Ty)
open Swift.TyParser (exists_ok_of_bind_eq_ok)

/-- What a Kotlin type mentions for a Swift type: a class of Kotlin's own, or a type by its Swift
name. -/
inductive Mention
  | builtIn (name : String)
  | named (name : String)

/-- The name for a mention, if types are written under these names. -/
def Mention.written (naming : String → String) : Mention → String
  | builtIn name => name
  | named name => naming name

/-- The class of the tuples of a size. -/
def tupleClass : Nat → String
  | 0 => "Unit"
  | 2 => "Pair"
  | _ => "Triple"

mutual

/-- What the Kotlin type for a Swift type mentions, in order. -/
def mentions : Ty → List Mention
  | .named name generics => .named name :: allMentions generics
  | .optional wrapped => mentions wrapped
  | .implicitlyUnwrapped wrapped => mentions wrapped
  | .array element => .builtIn "MutableList" :: mentions element
  | .dictionary key value => .builtIn "MutableMap" :: (mentions key ++ mentions value)
  | .tuple elements => .builtIn (tupleClass elements.length) :: allMentions elements
  | .function params result _ => allMentions params ++ mentions result

def allMentions : List Ty → List Mention
  | [] => []
  | ty :: rest => mentions ty ++ allMentions rest

end

theorem map_written_eq_iff (naming other) (found : List Mention) :
    found.map (Mention.written naming) = found.map (Mention.written other) ↔
      ∀ name, .named name ∈ found → naming name = other name := by
  rw [List.map_inj_left]
  constructor
  · intro h name hname
    exact h _ hname
  · intro h mention hmention
    cases mention with
    | builtIn name => rfl
    | named name => exact h name hmention

attribute [local simp] mentions Kotlin.Ty.names Kotlin.Ty.allNames Mention.written

mutual

/-- The table of type names is all that changes the names in a type. -/
theorem names_kotlinType (h : kotlinType ty = .ok kotlin) :
    kotlin.names = (mentions ty).map (Mention.written kotlinTypeName) := by
  cases ty with
  | named name generics =>
    obtain ⟨args, hargs, ⟨⟩⟩ := exists_ok_of_bind_eq_ok h
    simp [allNames_kotlinTypes hargs]
  | optional wrapped | implicitlyUnwrapped wrapped =>
    obtain ⟨inner, hinner, ⟨⟩⟩ := exists_ok_of_bind_eq_ok h
    rw [Kotlin.Ty.names_orNull, names_kotlinType hinner, mentions]
  | array element =>
    obtain ⟨inner, hinner, ⟨⟩⟩ := exists_ok_of_bind_eq_ok h
    simp [names_kotlinType hinner]
  | dictionary key value =>
    obtain ⟨first, hfirst, h⟩ := exists_ok_of_bind_eq_ok h
    obtain ⟨second, hsecond, ⟨⟩⟩ := exists_ok_of_bind_eq_ok h
    simp [names_kotlinType hfirst, names_kotlinType hsecond]
  | tuple elements =>
    rw [kotlinType] at h
    split at h
    · next hlength =>
      cases h
      rw [List.length_eq_zero_iff.1 hlength]
      rfl
    · next hlength =>
      obtain ⟨args, hargs, ⟨⟩⟩ := exists_ok_of_bind_eq_ok h
      simp [tupleClass, hlength, allNames_kotlinTypes hargs]
    · next hlength =>
      obtain ⟨args, hargs, ⟨⟩⟩ := exists_ok_of_bind_eq_ok h
      simp [tupleClass, hlength, allNames_kotlinTypes hargs]
    · cases h
  | function params result throws =>
    obtain ⟨first, hfirst, h⟩ := exists_ok_of_bind_eq_ok h
    obtain ⟨second, hsecond, ⟨⟩⟩ := exists_ok_of_bind_eq_ok h
    simp [allNames_kotlinTypes hfirst, names_kotlinType hsecond]

theorem allNames_kotlinTypes {tys : List Ty} {kotlin : List Kotlin.Ty}
    (h : kotlinTypes tys = .ok kotlin) :
    Kotlin.Ty.allNames kotlin = (allMentions tys).map (Mention.written kotlinTypeName) := by
  cases tys with
  | nil =>
    cases h
    rfl
  | cons ty rest =>
    obtain ⟨first, hfirst, h⟩ := exists_ok_of_bind_eq_ok h
    obtain ⟨others, hothers, ⟨⟩⟩ := exists_ok_of_bind_eq_ok h
    simp [allMentions, names_kotlinType hfirst, allNames_kotlinTypes hothers]

end

theorem names_writtenType (ty : Ty) :
    (writtenType ty).names = (mentions ty).map (Mention.written kotlinTypeName) ∨
      (∃ tuple, kotlinType ty = .error tuple) ∧ writtenType ty = .named "Any" [] := by
  unfold writtenType
  cases hty : kotlinType ty with
  | error tuple => exact .inr ⟨⟨tuple, rfl⟩, rfl⟩
  | ok kotlin => exact .inl (names_kotlinType hty)

/-! ## Names that stay as they are -/

/-- The Swift types that have other names in Kotlin. -/
def renamedTypes : List String :=
  ["Int8", "Int16", "Int32", "Int64", "UInt8", "UInt16", "UInt32", "UInt64", "Bool", "Character",
    "Void", "AnyObject", "Set", "Error"]

theorem kotlinTypeName_of_not_mem (hbare : (Text.without "Swift." name).getD name = bare)
    (h : bare ∉ renamedTypes) :
    kotlinTypeName name = bare := by
  unfold kotlinTypeName
  split <;> simp_all [renamedTypes]

theorem without_eq_some (h : Text.without mark text = some rest) : text = mark ++ rest := by
  unfold Text.without at h
  split at h
  · next hprefix =>
    cases h
    obtain ⟨tail, htail⟩ := List.isPrefixOf_iff_prefix.1 hprefix
    apply String.toList_injective
    rw [String.toList_append, String.toList_ofList, ← htail, List.drop_left' String.length_toList]
  · cases h

/-- How long a text is without backticks. -/
def bareLength (text : String) : Nat :=
  text.toList.countP (· != '\x60')

theorem countP_dropWhile (c : Char) (text : List Char) :
    (text.dropWhile (· == c)).countP (· != c) = text.countP (· != c) := by
  induction text with
  | nil => rfl
  | cons d text ih =>
    by_cases hd : d = c
    · simp [hd, ih]
    · simp [hd]

theorem bareLength_append (first second : String) :
    bareLength (first ++ second) = bareLength first + bareLength second := by
  simp [bareLength]

theorem bareLength_strip (text : String) :
    bareLength (Text.strip '\x60' text) = bareLength text := by
  simp [bareLength, Text.strip, countP_dropWhile]

/-- An identifier has the length of the name. -/
theorem bareLength_identifier (name : String) : bareLength (identifier name) = bareLength name := by
  rw [← bareLength_strip name]
  unfold identifier
  dsimp only
  split
  · next hself => rw [hself]; decide
  · split
    · change bareLength ("`" ++ Text.strip '\x60' name ++ "`") = _
      rw [bareLength_append, bareLength_append, show bareLength "`" = 0 by decide, Nat.zero_add,
        Nat.add_zero]
    · rfl

/-- A type is written like the identifier of its class exactly if neither the table of types nor the
escaping of keywords changes its name. -/
theorem kotlinTypeName_eq_identifier_iff (name : String) :
    kotlinTypeName name = identifier name ↔
      identifier name = name ∧ name ∉ renamedTypes ∧ Text.without "Swift." name = none := by
  have hrenamed : ∀ name ∈ renamedTypes, kotlinTypeName name ≠ identifier name := by decide +kernel
  have hqualified : ∀ name ∈ renamedTypes,
      kotlinTypeName ("Swift." ++ name) ≠ identifier ("Swift." ++ name) := by decide +kernel
  cases hname : Text.without "Swift." name with
  | none =>
    by_cases hmem : name ∈ renamedTypes
    · simp [hrenamed name hmem, hmem]
    · rw [kotlinTypeName_of_not_mem (by rw [hname]; rfl) hmem]
      simp [hmem, eq_comm]
  | some rest =>
    have hdiffer : kotlinTypeName name ≠ identifier name := by
      obtain rfl := without_eq_some hname
      by_cases hmem : rest ∈ renamedTypes
      · exact hqualified rest hmem
      -- an identifier is as long as the name, but the qualifier is gone
      · rw [kotlinTypeName_of_not_mem (by rw [hname]; rfl) hmem]
        intro heq
        have hlength := bareLength_identifier ("Swift." ++ rest)
        rw [← heq, bareLength_append, show bareLength "Swift." = 6 by decide] at hlength
        omega
    simp [hdiffer]

/-- An identifier is the name itself unless there are backticks around it or it is `self` or a
keyword; but a keyword that has its backticks keeps them. -/
theorem identifier_eq_self_iff (name : String) :
    identifier name = name ↔
      (Text.strip '\x60' name = name ∧ name ≠ "self" ∧ name ∉ kotlinKeywords) ∨
        ∃ keyword ∈ kotlinKeywords, name = s!"`{keyword}`" := by
  have hstrip : ∀ keyword ∈ kotlinKeywords, Text.strip '\x60' s!"`{keyword}`" = keyword := by
    decide +kernel
  unfold identifier
  by_cases hself : Text.strip '\x60' name = "self"
  · rw [if_pos hself]
    constructor
    · rintro rfl
      exact absurd hself (by decide +kernel)
    · rintro (⟨hbare, hname, -⟩ | ⟨keyword, hkeyword, rfl⟩)
      · exact absurd (hbare.symm.trans hself) hname
      · rw [hstrip keyword hkeyword] at hself
        rw [hself] at hkeyword
        exact absurd hkeyword (by decide)
  rw [if_neg hself]
  by_cases hescaped : Text.strip '\x60' name ∈ kotlinKeywords
  · rw [if_pos hescaped]
    constructor
    · exact fun h => .inr ⟨_, hescaped, h.symm⟩
    · rintro (⟨hbare, -, hname⟩ | ⟨keyword, hkeyword, rfl⟩)
      · exact absurd (hbare ▸ hescaped) hname
      · rw [hstrip keyword hkeyword]
  · rw [if_neg hescaped]
    constructor
    · intro h
      rw [h] at hself hescaped
      exact .inl ⟨h, hself, hescaped⟩
    · rintro (⟨hbare, -⟩ | ⟨keyword, hkeyword, rfl⟩)
      · exact hbare
      · exact absurd ((hstrip keyword hkeyword).symm ▸ hkeyword) hescaped

end Lowering

end SwiftToKotlin
