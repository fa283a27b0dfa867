import SwiftToKotlin.Proofs.Ranges
import SwiftToKotlin.Proofs.Swift.Origins

/-!
# Where ranges come from

A conversion commutes with every change of ranges. The change that drops all ranges but those of
the dump leaves the dump as it is, so it leaves the trees and the diagnostics as they are as well:
each of their ranges is one that is not dropped.
-/

namespace SwiftToKotlin

/-! ## The ranges of a tree -/

namespace Dump.Node

mutual

/-- The ranges of all nodes of the dump. -/
def ranges : Node → List SourceRange
  | ⟨_, _, children, range⟩ => range.toList ++ rangesAll children

def rangesAll : List Node → List SourceRange
  | [] => []
  | node :: rest => ranges node ++ rangesAll rest

end

mutual

/-- A relocation that drops none of the ranges of a dump leaves it as it is. -/
theorem relocate_filter_eq_self : (node : Node) → (∀ range ∈ node.ranges, keep range = true)
    → node.relocate (Option.filter keep) = node
  | ⟨kind, attributes, children, range⟩, h => by
    rw [ranges, List.forall_mem_append] at h
    have hrange : range.filter keep = range := by
      cases range with
      | none => rfl
      | some range => simp [h.1 range (by simp)]
    rw [relocate, relocateAll_filter_eq_self children h.2, hrange]

theorem relocateAll_filter_eq_self {keep : SourceRange → Bool} : (nodes : List Node) →
    (∀ range ∈ rangesAll nodes, keep range = true) →
      relocateAll (Option.filter keep) nodes = nodes
  | [], _ => by rw [relocateAll]
  | node :: rest, h => by
    rw [rangesAll, List.forall_mem_append] at h
    rw [relocateAll, relocate_filter_eq_self node h.1, relocateAll_filter_eq_self rest h.2]

end

end Dump.Node

namespace Swift

variable {α β : Type}

def Condition.ranges : Condition α → List SourceRange
  | expr _ => []
  | binding _ _ range => range.toList

/-- The ranges that a layer has of its own. -/
def Construct.ranges : Construct α → List SourceRange
  | ifStmt condition _ _ => condition.ranges
  | guardStmt condition _ => condition.ranges
  | switchStmt _ cases => cases.flatMap fun case => case.range.toList
  | doCatch _ catches => catches.flatMap fun clause => clause.range.toList
  | _ => []

@[simp] theorem Construct.ranges_map (f : α → β) (construct : Construct α) :
    (construct.map f).ranges = construct.ranges := by
  cases construct with
  | ifStmt condition => cases condition <;> rfl
  | guardStmt condition => cases condition <;> rfl
  | switchStmt => simp [map, ranges, List.flatMap_map, SwitchCase.map]
  | doCatch => simp [map, ranges, List.flatMap_map, CatchClause.map]
  | _ => rfl

theorem Construct.ranges_relocate_filter (keep) (construct : Construct α) :
    (construct.relocate (Option.filter keep)).ranges = construct.ranges.filter keep := by
  have hcondition (condition : Condition α) :
      (condition.relocate (Option.filter keep)).ranges = condition.ranges.filter keep := by
    cases condition with
    | expr => rfl
    | binding name value range => exact Option.toList_filter
  cases construct with
  | ifStmt condition => exact hcondition condition
  | guardStmt condition => exact hcondition condition
  | switchStmt =>
    simp [relocate, ranges, List.flatMap_map, SwitchCase.relocate, Option.toList_filter,
      List.filter_flatMap]
  | doCatch =>
    simp [relocate, ranges, List.flatMap_map, CatchClause.relocate, Option.toList_filter,
      List.filter_flatMap]
  | _ => rfl

namespace Node

/-- The ranges of all nodes of the tree, and of the conditions, cases and catch clauses in it. -/
def ranges (node : Node) : List SourceRange :=
  node.fold fun construct range => range.toList ++ construct.ranges ++ construct.parts.flatten

theorem ranges_mk (construct range) :
    ranges ⟨construct, range⟩ =
      range.toList ++ construct.ranges ++ construct.parts.flatMap ranges := by
  rw [ranges, fold_mk, Construct.ranges_map, Construct.parts_map]
  rfl

theorem ranges_relocate_filter (keep) (node : Node) :
    (node.relocate (Option.filter keep)).ranges = node.ranges.filter keep := by
  induction node using induction with
  | step construct range ih =>
    rw [relocate_mk, ranges_mk, ranges_mk, Construct.carry, Construct.ranges_relocate_filter,
      Construct.ranges_map, Construct.parts_relocate, Construct.parts_map, Option.toList_filter,
      List.filter_append, List.filter_append, List.filter_flatMap, List.flatMap_map]
    rw [List.flatMap_def, List.flatMap_def, List.map_congr_left ih]

theorem range_ofRaw (raw) : (ofRaw raw).range = raw.range := by
  cases hread : Construct.read raw with
  | error flaw => rw [ofRaw_of_error hread]
  | ok construct => rw [ofRaw_of_ok hread]

end Node

end Swift

namespace Kotlin.Node

/-- The ranges of all nodes of the tree. -/
def ranges (node : Node) : List SourceRange :=
  node.fold fun construct range => range.toList ++ construct.parts.flatten

theorem ranges_mk (construct range) :
    ranges ⟨construct, range⟩ = range.toList ++ construct.parts.flatMap ranges := by
  rw [ranges, fold_mk, Construct.parts_map]
  rfl

theorem ranges_relocate_filter (keep) (node : Node) :
    (node.relocate (Option.filter keep)).ranges = node.ranges.filter keep := by
  induction node using induction with
  | step construct range ih =>
    rw [relocate_mk, ranges_mk, ranges_mk, Construct.parts_map, Option.toList_filter,
      List.filter_append, List.filter_flatMap, List.flatMap_map]
    rw [List.flatMap_def, List.flatMap_def, List.map_congr_left ih]

end Kotlin.Node

/-! ## No range is made up -/

theorem Diagnostic.range_kept {diagnostics : List Diagnostic}
    (h : diagnostics.map (Diagnostic.relocate (Option.filter keep)) = diagnostics) :
    ∀ diagnostic ∈ diagnostics, ∀ range ∈ diagnostic.range, keep range = true := by
  intro diagnostic hdiagnostic range hrange
  have hsame : diagnostic.relocate (Option.filter keep) = diagnostic :=
    List.map_inj_left.1 (h.trans (List.map_id diagnostics).symm) diagnostic hdiagnostic
  have hrange' : diagnostic.range.filter keep = diagnostic.range := congrArg Diagnostic.range hsame
  rw [← hrange'] at hrange
  exact (Option.mem_filter_iff.1 hrange).2

namespace Conversion

/-- Every range in the Swift tree, in the Kotlin tree, or in a diagnostic of reading or of lowering
is the range of a node of the dump. Every node of the Swift tree is what a node of the dump, or the
return of one, is read as, and has its range. -/
theorem ofDump_invents_no_range (settings : Settings) (dump : Dump.Node) :
    (ofDump settings dump).swift.ranges ⊆ dump.ranges ∧
    (ofDump settings dump).kotlin.ranges ⊆ dump.ranges ∧
    (∀ diagnostic ∈ ((Swift.Node.ofDump dump).run []).2 ++ (ofDump settings dump).diagnostics,
      ∀ range ∈ diagnostic.range, range ∈ dump.ranges) ∧
    ∀ node : Swift.Node, node.Within (ofDump settings dump).swift →
      ∃ raw, dump.Supplies raw ∧ node = ((Swift.Node.ofDump raw).run []).1 ∧
        node.range = raw.range := by
  let keep : SourceRange → Bool := fun range => range ∈ dump.ranges
  have hdump : dump.relocate (Option.filter keep) = dump :=
    dump.relocate_filter_eq_self fun _ => decide_eq_true
  have hconversion : (ofDump settings dump).relocate (Option.filter keep) =
      ofDump settings dump := by
    rw [← ofDump_relocate rfl, hdump]
  have hread := Swift.Node.ofDump_relocate (Option.filter keep) dump []
  rw [hdump] at hread
  have hkept {ranges : List SourceRange} (h : ranges.filter keep = ranges) :
      ranges ⊆ dump.ranges :=
    fun range hrange => of_decide_eq_true (List.filter_eq_self.1 h range hrange)
  refine ⟨hkept ?_, hkept ?_, fun diagnostic hdiagnostic range hrange => ?_, fun node hnode => ?_⟩
  · rw [← Swift.Node.ranges_relocate_filter]
    exact congrArg (fun conversion => conversion.swift.ranges) hconversion
  · rw [← Kotlin.Node.ranges_relocate_filter]
    exact congrArg (fun conversion => conversion.kotlin.ranges) hconversion
  · have hsame : (((Swift.Node.ofDump dump).run []).2 ++ (ofDump settings dump).diagnostics).map
        (Diagnostic.relocate (Option.filter keep)) =
          ((Swift.Node.ofDump dump).run []).2 ++ (ofDump settings dump).diagnostics := by
      rw [List.map_append]
      exact congrArg₂ _ (congrArg Prod.snd hread).symm (congrArg diagnostics hconversion)
    exact of_decide_eq_true (Diagnostic.range_kept hsame diagnostic hdiagnostic range hrange)
  · obtain ⟨raw, hraw, rfl⟩ := Swift.Node.originatesIn_of_within hnode
    exact ⟨raw, hraw, rfl, Swift.Node.range_ofRaw raw⟩

end Conversion

end SwiftToKotlin
