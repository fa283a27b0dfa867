import Mathlib.Data.List.DropRight
import SwiftToKotlin.Lowering.Naming

/-!
# Names do not depend on what was named before

The table of named cases keeps the first name that it gives to a case. As long as each case is asked
for in one style and no dot makes two cases look alike, that cannot be told from the answers: each
of them is what its own question alone determines. Identifiers are as different as the names without
backticks that they are made for.
-/

namespace SwiftToKotlin

namespace Text

theorem strip_eq_rdropWhile (c : Char) (text : String) :
    strip c text = String.ofList ((text.toList.dropWhile (· == c)).rdropWhile (· == c)) :=
  rfl

/-- Nothing is left to strip. -/
theorem strip_strip (c : Char) (text : String) : strip c (strip c text) = strip c text := by
  have hstart (cs : List Char) (h : cs.dropWhile (· == c) = cs) :
      (cs.rdropWhile (· == c)).dropWhile (· == c) = cs.rdropWhile (· == c) := by
    obtain ⟨rest, hrest⟩ := List.rdropWhile_prefix (· == c) (l := cs)
    cases hkept : cs.rdropWhile (· == c) with
    | nil => rfl
    | cons d ds =>
      rw [← hrest, hkept, List.dropWhile_eq_self_iff] at h
      exact List.dropWhile_cons_of_neg (h (by simp))
  rw [strip_eq_rdropWhile c (strip c text), strip_eq_rdropWhile c text, String.toList_ofList,
    hstart _ (List.dropWhile_idempotent _ _), List.rdropWhile_idempotent]

theorem strip_enclosed (c : Char) (text : String) :
    strip c (String.ofList (c :: text.toList ++ [c])) = strip c text := by
  rw [strip_eq_rdropWhile, strip_eq_rdropWhile, String.toList_ofList, List.cons_append,
    List.dropWhile_cons_of_pos (by simp), List.dropWhile_append]
  split
  · next hempty => simp [List.isEmpty_iff.1 hempty]
  · rw [List.rdropWhile_concat_pos _ _ _ (by simp)]

end Text

namespace Lowering

/-! ## Identifiers -/

/-- The name without backticks can be told from its identifier. -/
theorem strip_eq_of_identifier (source : String) : Text.strip '\x60' source =
    if identifier source = "this" then "self" else Text.strip '\x60' (identifier source) := by
  have hkeyword : ∀ keyword ∈ kotlinKeywords,
      s!"`{keyword}`" ≠ "this" ∧ Text.strip '\x60' s!"`{keyword}`" = keyword := by
    decide +kernel
  unfold identifier
  dsimp only
  split
  · next hself => simpa using hself
  · split
    · next hmem => rw [if_neg (hkeyword _ hmem).1, (hkeyword _ hmem).2]
    · next hmem =>
      have hthis : Text.strip '\x60' source ≠ "this" := fun h => hmem (h ▸ by decide)
      rw [if_neg hthis, Text.strip_strip]

/-! ## Questions to one table -/

/-- A question for a name. -/
inductive NameQuery
  | identifier (source : String)
  | enumCase (enum case : String) (style : CaseStyle)

namespace NameQuery

/-- The answer that nothing else has a part in. -/
def ownAnswer : NameQuery → String
  | identifier source => Lowering.identifier source
  | enumCase _ case style => style.apply (Text.strip '\x60' case)

def ask (table : CaseTable) : NameQuery → String × CaseTable
  | identifier source => (Lowering.identifier source, table)
  | enumCase enum case style => table.name enum case style

/-- The answers to questions that are asked one after the other. -/
def answers (table : CaseTable) : List NameQuery → List String
  | [] => []
  | query :: rest => (query.ask table).1 :: answers (query.ask table).2 rest

/-- No name of an enum or a case has a dot, and each case is asked for in one style. -/
structure Consistent (queries : List NameQuery) : Prop where
  undotted : ∀ {enum case style}, enumCase enum case style ∈ queries →
    '.' ∉ enum.toList ∧ '.' ∉ case.toList
  oneStyle : ∀ {enum case style other}, enumCase enum case style ∈ queries →
    enumCase enum case other ∈ queries → style = other

/-- What the table has is the answer to one of the questions. -/
def Explain (queries : List NameQuery) (table : CaseTable) : Prop :=
  ∀ key name, table.entries.lookup key = some name → ∃ enum case style,
    enumCase enum case style ∈ queries ∧ key = CaseTable.key enum case ∧
      name = style.apply (Text.strip '\x60' case)

theorem key_inj (h : '.' ∉ enum.toList ∧ '.' ∉ case.toList)
    (hkey : CaseTable.key enum case = CaseTable.key enum' case') : enum = enum' ∧ case = case' := by
  have htext (enum case : String) :
      (CaseTable.key enum case).toList = enum.toList ++ '.' :: case.toList := by
    simp [CaseTable.key, toString]
  rw [← String.toList_inj, htext, htext, List.append_cons_inj_of_notMem h.1 h.2] at hkey
  exact ⟨String.toList_injective hkey.1, String.toList_injective hkey.2.2⟩

/-- One question is answered by itself, and the table is explained as before. -/
theorem ask_eq (h : Consistent queries) (hquery : query ∈ queries)
    (htable : Explain queries table) :
    (ask table query).1 = query.ownAnswer ∧ Explain queries (ask table query).2 := by
  cases query with
  | identifier source => exact ⟨rfl, htable⟩
  | enumCase enum case style =>
    rw [ask, CaseTable.name]
    cases hfound : table.name? enum case with
    | some name =>
      obtain ⟨enum', case', style', hasked, hkey, rfl⟩ := htable _ _ hfound
      obtain ⟨rfl, rfl⟩ := key_inj (h.undotted hasked) hkey.symm
      obtain rfl := h.oneStyle hquery hasked
      exact ⟨rfl, htable⟩
    | none =>
      refine ⟨rfl, fun key name hname => ?_⟩
      dsimp only at hname
      rw [List.lookup_cons] at hname
      split at hname
      · next heq =>
        cases hname
        exact ⟨enum, case, style, hquery, eq_of_beq heq, rfl⟩
      · exact htable key name hname

theorem answers_eq (h : Consistent queries) (hasked : asked ⊆ queries)
    (htable : Explain queries table) : answers table asked = asked.map ownAnswer := by
  induction asked generalizing table with
  | nil => rfl
  | cons query rest ih =>
    obtain ⟨hquery, hrest⟩ := List.cons_subset.1 hasked
    obtain ⟨hanswer, hnext⟩ := ask_eq h hquery htable
    rw [answers, hanswer, ih hrest hnext, List.map_cons]

end NameQuery

end Lowering

end SwiftToKotlin
