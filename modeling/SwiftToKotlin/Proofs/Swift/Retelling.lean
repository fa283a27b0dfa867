import SwiftToKotlin.Proofs.Swift.Relocation

/-!
# Dumps that tell the same

A dump that is told in another way, with the same values under the keys that are asked for and with
other ranges, is read as the same tree with other ranges, and what is told about it is told of the
other places.
-/

namespace SwiftToKotlin.Swift

namespace Node

theorem treeWithin_retell (r : Reading.Retelling) (layers : Nat) (raw) :
    treeWithin layers (r.retell raw) = (treeWithin layers raw).relocate r.move := by
  induction layers generalizing raw with
  | zero =>
    change Node.mk (.invalid _ (.misplaced _)) _ = relocate r.move ⟨.invalid _ (.misplaced _), _⟩
    rw [relocate_mk, r.kind_retell, r.range_retell]
    rfl
  | succ layers ih =>
    have hread := Construct.read_retell r raw
    cases h : Construct.read raw with
    | error flaw =>
      rw [h] at hread
      rw [treeWithin_of_error layers hread, treeWithin_of_error layers h, relocate_mk,
        r.kind_retell, r.range_retell]
      rfl
    | ok construct =>
      rw [h] at hread
      rw [treeWithin_of_ok layers hread, treeWithin_of_ok layers h, relocate_mk,
        r.range_retell, Construct.carry, Construct.carry, Construct.map_relocate,
        Construct.map_map, Construct.map_map, Function.comp_def, Function.comp_def, funext ih]

mutual

theorem height_retell (r : Reading.Retelling) :
    ∀ raw : Dump.Node, (r.retell raw).height = raw.height
  | ⟨kind, attributes, children, range⟩ => by
    rw [Dump.Node.height_eq, r.children_retell, heights_retell r children, Dump.Node.height]

theorem heights_retell (r : Reading.Retelling) :
    ∀ raws : List Dump.Node, Dump.Node.heights (raws.map r.retell) = Dump.Node.heights raws
  | [] => rfl
  | raw :: rest => by
    rw [List.map_cons, Dump.Node.heights, Dump.Node.heights, height_retell r raw,
      heights_retell r rest]

end

/-- A dump that is told in another way is read as the tree with other ranges, and the same is told
of other places. -/
theorem ofDump_retell (r : Reading.Retelling) (raw found) :
    (ofDump (r.retell raw)).run (found.map (Diagnostic.relocate r.move)) =
      (((ofDump raw).run found).1.relocate r.move,
        ((ofDump raw).run found).2.map (Diagnostic.relocate r.move)) := by
  rw [ofDump, ofDump, height_retell, ofDumpWithin_eq, ofDumpWithin_eq, treeWithin_retell,
    placeholders_relocate]
  exact Prod.ext rfl List.map_append.symm

end Node

/-- Reading the dump with other ranges gives the tree with other ranges and tells the same of other
places. -/
theorem Node.ofDump_relocate (move raw found) :
    (ofDump (raw.relocate move)).run (found.map (Diagnostic.relocate move)) =
      (((ofDump raw).run found).1.relocate move,
        ((ofDump raw).run found).2.map (Diagnostic.relocate move)) :=
  ofDump_retell (.relocating move) raw found

end SwiftToKotlin.Swift
