import SwiftToKotlin.Conversion
import SwiftToKotlin.Proofs.Lowering.Parallel.Declaration
import SwiftToKotlin.Proofs.Swift.Retelling

/-!
# Ranges play no part in a conversion

A dump with other ranges is read, lowered and told about as before, with the other ranges in every
place where one was; the source file is the same. Two dumps that agree once their ranges are erased
are both of this form, and the dumps that one text gives in two files agree in that way.
-/

namespace SwiftToKotlin

namespace Lowering

open Swift (Node)

/-- The correspondence of runs with the same locals. -/
def Correspondence.sameLocals (context : Context) (move : Relocation) (hmove : move none = none) :
    Correspondence where
  context := context
  move := move
  move_none := hmove
  locals := fun _ l l' => l' = l
  typeOf? := by rintro _ _ _ rfl _; rfl
  written := by rintro _ _ _ rfl _; rfl
  declare := by rintro _ _ _ rfl _ _; rfl
  narrow := by rintro _ _ _ rfl _ _; rfl
  declareFresh := by rintro _ _ _ rfl _ _; exact ⟨rfl, rfl⟩
  opened := by rintro _ _ _ rfl; rfl
  closed := by rintro _ _ _ rfl; rfl

theorem fileOf_relocate (move range nodes) :
    fileOf (move range) (nodes.map (Kotlin.Node.relocate move)) =
      (fileOf range nodes).relocate move := by
  rcases nodes with _ | ⟨⟨construct, place⟩, _ | ⟨second, rest⟩⟩
  · simp [fileOf, Kotlin.Construct.map]
  · rw [List.map_singleton, Kotlin.Node.relocate_mk]
    cases construct <;> simp [fileOf, Kotlin.Construct.map]
  · simp [fileOf, Kotlin.Construct.map]

/-- Lowering a tree with other ranges, after diagnostics with other ranges. -/
theorem lower_relocate (hmove : move none = none) (droppedImports) (root : Node) (diagnostics) :
    lower droppedImports (root.relocate move) (diagnostics.map (Diagnostic.relocate move)) =
      Prod.map (Kotlin.Node.relocate move) (List.map (Diagnostic.relocate move))
        (lower droppedImports root diagnostics) := by
  let c := Correspondence.sameLocals (.ofRoot droppedImports root) move hmove
  have hstart : c.Relates 1 { diagnostics }
      { diagnostics := diagnostics.map (Diagnostic.relocate move) } :=
    { surroundings := rfl, locals := rfl, anonymousMax := rfl, cases := rfl, diagnostics := rfl }
  obtain ⟨hnodes, hend⟩ :=
    (descend_parallel c root.height).statement root 1 _ _ (Nat.le_refl 1) hstart
  have hcontext : c.context' = .ofRoot droppedImports (root.relocate move) := by
    unfold Context.ofRoot
    rw [DeclaredTypes.ofTree_relocate]
    rfl
  rw [hcontext] at hnodes hend
  unfold lower
  rw [Node.height_relocate, Node.range_relocate]
  refine Prod.ext ?_ hend.diagnostics
  refine Eq.trans ?_ (fileOf_relocate move root.range _)
  exact congrArg (fileOf (move root.range)) hnodes

end Lowering

namespace Conversion

/-- The conversion with other ranges in its trees and diagnostics. -/
def relocate (move : Relocation) (conversion : Conversion) : Conversion where
  swift := conversion.swift.relocate move
  kotlin := conversion.kotlin.relocate move
  diagnostics := conversion.diagnostics.map (Diagnostic.relocate move)

theorem ofDump_relocate (hmove : move none = none) (settings : Settings) (dump) :
    ofDump settings (dump.relocate move) = (ofDump settings dump).relocate move := by
  have hread := Swift.Node.ofDump_relocate move dump []
  rw [List.map_nil] at hread
  unfold ofDump
  rw [hread]
  have hlowered := Lowering.lower_relocate hmove settings.droppedImports
    ((Swift.Node.ofDump dump).run []).1 ((Swift.Node.ofDump dump).run []).2
  dsimp only
  rw [hlowered]
  rfl

theorem source_relocate (move) (settings : Settings) (conversion) :
    source settings (conversion.relocate move) = source settings conversion :=
  Kotlin.Node.source_relocate move settings.indentWidth conversion.kotlin

/-- What is left of a conversion once ranges are erased, with its source file. -/
def unplaced (settings : Settings) (conversion : Conversion) : Conversion × String :=
  (conversion.relocate nowhere, source settings conversion)

/-- Erasing the ranges of a dump first changes nothing but ranges. -/
theorem unplaced_ofDump (settings : Settings) (dump) :
    unplaced settings (ofDump settings dump) =
      (ofDump settings (dump.relocate nowhere),
        source settings (ofDump settings (dump.relocate nowhere))) := by
  unfold unplaced
  rw [ofDump_relocate rfl, source_relocate]

/-- Dumps that differ only in their ranges are converted to Swift trees, Kotlin trees and
diagnostics that differ only in their ranges, and to the same source file. A text gives the same up
to ranges, or the same syntax error, whatever file it is said to be in. -/
theorem ofDump_indifferent_to_ranges (settings : Settings) :
    (∀ first second : Dump.Node, first.relocate nowhere = second.relocate nowhere →
      unplaced settings (ofDump settings first) = unplaced settings (ofDump settings second)) ∧
    ∀ file other text : String,
      (ofText settings file text).map (unplaced settings) =
        (ofText settings other text).map (unplaced settings) := by
  have hdumps (first second : Dump.Node) (h : first.relocate nowhere = second.relocate nowhere) :
      unplaced settings (ofDump settings first) = unplaced settings (ofDump settings second) := by
    rw [unplaced_ofDump, unplaced_ofDump, h]
  refine ⟨hdumps, fun file other text => ?_⟩
  unfold ofText
  have hparsed := Dump.parse_map_relocate file other text
  rcases error_or_ok_of_map_eq hparsed with
    ⟨fault, hfile, hother⟩ | ⟨first, second, hfile, hother, h⟩
  · rw [hfile, hother]
  · rw [hfile, hother]
    exact congrArg Except.ok (hdumps first second h)

/-- A statement without equivalent, so that there is something to tell about its place. -/
def deferredAt (range : Option SourceRange) : Dump.Node :=
  ⟨"source_file", [], [⟨"defer_stmt", [], [⟨"brace_stmt", [], [], none⟩], range⟩], none⟩

theorem deferred_statement_indifferent_to_range :
    (ofDump {} (deferredAt none)).diagnostics ≠
        (ofDump {} (deferredAt (some ⟨"a.swift", 1, 1, 2, 5⟩))).diagnostics ∧
      unplaced {} (ofDump {} (deferredAt none)) =
        unplaced {} (ofDump {} (deferredAt (some ⟨"a.swift", 1, 1, 2, 5⟩))) := by
  refine ⟨?_, (ofDump_indifferent_to_ranges {}).1 _ _ rfl⟩
  have hnone : (ofDump {} (deferredAt none)).diagnostics =
      [⟨.noEquivalent .deferStatement, none⟩] := by
    with_unfolding_all rfl
  have hsome : (ofDump {} (deferredAt (some ⟨"a.swift", 1, 1, 2, 5⟩))).diagnostics =
      [⟨.noEquivalent .deferStatement, some ⟨"a.swift", 1, 1, 2, 5⟩⟩] := by
    with_unfolding_all rfl
  rw [hnone, hsome]
  simp

end Conversion

end SwiftToKotlin
