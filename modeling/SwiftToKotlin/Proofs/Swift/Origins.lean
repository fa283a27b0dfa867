import SwiftToKotlin.Proofs.Dump.Grammar
import SwiftToKotlin.Proofs.Swift.Relocation

/-!
# Where the nodes of a tree come from

Each layer takes its parts from below the node of the dump that it is read from, but for returns
that are made up around a child. Hence twice the height is enough layers for any dump, and every
node of a tree is what some node of the dump is read as when it is read alone. Its tag is the one
that the catalogue gives for the kind.
-/

namespace SwiftToKotlin

namespace Dump.Node

variable {part whole : Node}

theorem height_pos (node : Node) : 0 < node.height := by
  obtain ⟨kind, attributes, children, range⟩ := node
  simp [height]

theorem height_lt_of_mem_children (h : part ∈ whole.children) : part.height < whole.height := by
  obtain ⟨kind, attributes, children, range⟩ := whole
  have hle := heights_le_iff.1 (Nat.le_refl (heights children)) part h
  rw [height]
  omega

theorem Below.height_lt (h : part.Below whole) : part.height < whole.height := by
  induction h with
  | child h => exact height_lt_of_mem_children h
  | deeper hinner _ ih => exact Nat.lt_trans ih (height_lt_of_mem_children hinner)

theorem Below.trans (h : part.Below middle) (h' : middle.Below whole) : part.Below whole := by
  induction h' with
  | child h' => exact .deeper h' h
  | deeper hinner _ ih => exact .deeper hinner ih

/-- The node is the dump or stands somewhere under it, or it is the return of a value that does. -/
inductive Supplies (dump : Node) : Node → Prop
  | self : Supplies dump dump
  | below {raw : Node} (h : raw.Below dump) : Supplies dump raw
  | returned {value : Node} (h : value.Below dump) : Supplies dump value.returned

/-- What stands under a node that a dump supplies stands under the dump. -/
theorem Supplies.below_of_below (h : dump.Supplies raw) (hpart : part.Below raw) :
    part.Below dump := by
  cases h with
  | self => exact hpart
  | below h => exact hpart.trans h
  | returned h =>
    cases hpart with
    | child hpart => exact List.mem_singleton.1 hpart ▸ h
    | deeper hinner hpart => exact (List.mem_singleton.1 hinner ▸ hpart).trans h

end Dump.Node

namespace Swift

open Dump.Node (returned)
open Reading (Gives)

/-- The one part of a return that was made up is its value. -/
theorem Construct.read_returned (value) :
    Gives (fun construct => construct.parts = [value]) (Construct.read value.returned) := by
  have hexpression : Gives (· = value) (Reading.expression value) := by
    unfold Reading.expression
    split
    · exact .ok rfl
    · exact .error _
  have hvalue : Gives (· = some value) ((some value).mapM Reading.expression) :=
    hexpression.andThen fun _ heq => .pure (by rw [heq])
  exact hvalue.andThen fun _ heq => .pure (by rw [heq]; rfl)

/-! ## Enough layers -/

namespace Node

/-- Two bounds read the same layer if they read the same parts. -/
theorem treeWithin_congr_of_parts
    (h : Gives (fun construct => ∀ part ∈ construct.parts,
      treeWithin fewer part = treeWithin more part) (Construct.read raw)) :
    treeWithin (fewer + 1) raw = treeWithin (more + 1) raw := by
  cases hread : Construct.read raw with
  | error flaw => rw [treeWithin_of_error _ hread, treeWithin_of_error _ hread]
  | ok construct =>
    rw [treeWithin_of_ok _ hread, treeWithin_of_ok _ hread, Construct.map_congr (h construct hread)]

/-- All bounds from twice the height on read the same tree. -/
theorem treeWithin_congr (hfewer : 2 * raw.height ≤ fewer) (hmore : 2 * raw.height ≤ more) :
    treeWithin fewer raw = treeWithin more raw := by
  -- a made-up return takes a layer of its own, so that a child is two layers further down
  induction hheight : raw.height using Nat.strongRecOn generalizing raw fewer more with
  | _ height ih =>
    subst hheight
    have hpos := raw.height_pos
    obtain ⟨fewer, rfl⟩ : ∃ below, fewer = below + 1 + 1 := ⟨fewer - 2, by omega⟩
    obtain ⟨more, rfl⟩ : ∃ below, more = below + 1 + 1 := ⟨more - 2, by omega⟩
    apply treeWithin_congr_of_parts
    intro construct hread part hpart
    rcases (Construct.read_supplies raw construct hread).2 with hdraws | ⟨value, hvalue, hparts⟩
    · have hlt := (hdraws part hpart).height_lt
      exact ih part.height hlt (by omega) (by omega) rfl
    · obtain rfl : part = value.returned := by simpa [hparts] using hpart
      have hlt := Dump.Node.height_lt_of_mem_children hvalue
      apply treeWithin_congr_of_parts
      intro inner hinner part hpart
      obtain rfl : part = value := by
        simpa [Construct.read_returned value inner hinner] using hpart
      exact ih part.height hlt (by omega) (by omega) rfl

/-- The tree that a dump is read as. -/
def ofRaw (raw : Dump.Node) : Node :=
  ((ofDump raw).run []).1

theorem treeWithin_eq_ofRaw (h : 2 * raw.height ≤ layers) : treeWithin layers raw = ofRaw raw :=
  treeWithin_congr h (Nat.le_refl _)

theorem ofRaw_of_error (h : Construct.read raw = .error flaw) :
    ofRaw raw = ⟨.invalid raw.kind flaw, raw.range⟩ := by
  rw [← treeWithin_eq_ofRaw (Nat.le_succ (2 * raw.height)), treeWithin_of_error _ h]

/-- Each part is read as if it stood alone. -/
theorem ofRaw_of_ok {construct : Construct Dump.Node} (h : Construct.read raw = .ok construct) :
    ofRaw raw = ⟨construct.map ofRaw, raw.range⟩ := by
  rw [← treeWithin_eq_ofRaw (Nat.le_succ (2 * raw.height)), treeWithin_of_ok _ h]
  have hparts : ∀ part ∈ construct.parts, treeWithin (2 * raw.height) part = ofRaw part := by
    intro part hpart
    apply treeWithin_eq_ofRaw
    rcases (Construct.read_supplies raw construct h).2 with hdraws | ⟨value, hvalue, hparts⟩
    · have hlt := (hdraws part hpart).height_lt
      omega
    · obtain rfl : part = value.returned := by simpa [hparts] using hpart
      have hlt := Dump.Node.height_lt_of_mem_children hvalue
      have hheight : value.returned.height = value.height + 1 := by
        simp [returned, Dump.Node.height, Dump.Node.heights]
      omega
  rw [Construct.map_congr hparts]

end Node

/-! ## Origins -/

/-- The catalogue lets nodes of the kind be read as constructs with the tag. -/
def Catalogue.Allows (kind : String) (tag : Tag) : Prop :=
  match entryFor? kind with
  | none => tag = .unknown
  | some entry => tag = .invalid ∨ entry.tag = some tag

theorem Construct.read_allows (raw) :
    Gives (fun construct => Catalogue.Allows raw.kind construct.tag) (Construct.read raw) := by
  unfold Construct.read Catalogue.Allows
  cases Catalogue.entryFor? raw.kind with
  | none => exact .ok rfl
  | some entry =>
    refine .bind fun _ => ?_
    cases htag : entry.tag with
    | none => exact .error _
    | some tag =>
      intro construct hconstruct
      have hread := Reading.asTagged_tag raw tag construct hconstruct
      exact .inr (htag.trans (congrArg some hread.symm))

/-- After `else` comes a block or another `if`. -/
def Construct.HasElse (construct : Construct Dump.Node) : Prop :=
  ∀ condition thenBranch branch, construct = .ifStmt condition thenBranch (some branch) →
    branch.kind = "brace_stmt" ∨ branch.kind = "if_stmt"

theorem Reading.ifStmt_hasElse (raw) : Gives Construct.HasElse (ifStmt raw) := by
  unfold ifStmt
  split
  · refine .bind fun _ => .bind fun _ => ?_
    split
    · next other _ _ =>
      have hbranch : Gives (fun branch => branch.kind = "brace_stmt" ∨ branch.kind = "if_stmt")
          (elseBranch other) := by
        unfold elseBranch
        split
        · next hkind => exact .ok hkind
        · exact .error _
      refine hbranch.andThen fun branch hkind => .pure ?_
      rintro _ _ _ ⟨⟩
      exact hkind
    · exact .pure nofun
  · exact .error _

theorem Construct.read_hasElse (raw) : Gives HasElse (Construct.read raw) := by
  unfold Construct.read
  split
  · exact .ok nofun
  · refine .bind fun _ => ?_
    split
    · next tag _ =>
      by_cases htag : tag = .ifStmt
      · subst htag
        exact Reading.ifStmt_hasElse raw
      · intro construct hconstruct condition thenBranch branch heq
        have hown := Reading.asTagged_tag raw tag construct hconstruct
        exact absurd (by rw [← hown, heq]; rfl) htag
    · exact .error _

namespace Node

/-- The node is the tree or some node of the tree has it as a part. -/
def Within (node tree : Node) : Prop :=
  node = tree ∨ ∃ role, node.StandsIn role tree

theorem allows_ofRaw (raw) : Catalogue.Allows raw.kind (ofRaw raw).construct.tag := by
  cases hread : Construct.read raw with
  | error flaw =>
    have hentry : Catalogue.entryFor? raw.kind ≠ none := by
      intro hnone
      simp [Construct.read, hnone] at hread
    rw [ofRaw_of_error hread, Catalogue.Allows]
    split
    · next hnone => exact absurd hnone hentry
    · exact .inl rfl
  | ok construct =>
    rw [ofRaw_of_ok hread, Construct.tag_map]
    exact Construct.read_allows raw construct hread

/-- The node is what a node of the dump is read as alone. -/
def OriginatesIn (dump : Dump.Node) (node : Node) : Prop :=
  ∃ raw, dump.Supplies raw ∧ node = ofRaw raw

theorem OriginatesIn.of_part (h : OriginatesIn dump whole) (hpart : part ∈ whole.construct.parts) :
    OriginatesIn dump part := by
  obtain ⟨raw, hraw, rfl⟩ := h
  cases hread : Construct.read raw with
  | error flaw =>
    rw [ofRaw_of_error hread] at hpart
    cases hpart
  | ok construct =>
    rw [ofRaw_of_ok hread, Construct.parts_map] at hpart
    obtain ⟨inner, hinner, rfl⟩ := List.mem_map.1 hpart
    rcases (Construct.read_supplies raw construct hread).2 with hdraws | ⟨value, hvalue, hparts⟩
    · exact ⟨inner, .below (hraw.below_of_below (hdraws inner hinner)), rfl⟩
    · obtain rfl : inner = value.returned := by simpa [hparts] using hinner
      exact ⟨_, .returned (hraw.below_of_below (.child hvalue)), rfl⟩

theorem OriginatesIn.of_standsIn (h : OriginatesIn dump whole) (hpart : part.StandsIn role whole) :
    OriginatesIn dump part := by
  induction hpart with
  | here hpart => exact h.of_part (Construct.mem_parts_of_mem_positions hpart)
  | deeper hinner _ ih => exact ih (h.of_part hinner)

/-- Every node of the tree comes from the dump. -/
theorem originatesIn_of_within (h : node.Within (ofRaw dump)) : OriginatesIn dump node := by
  have hdump : OriginatesIn dump (ofRaw dump) := ⟨dump, .self, rfl⟩
  rcases h with rfl | ⟨role, hstands⟩
  · exact hdump
  · exact hdump.of_standsIn hstands

theorem tag_of_else (h : OriginatesIn dump node)
    (hc : node.construct = .ifStmt condition thenBranch (some branch)) :
    branch.construct.tag ∈ [Tag.block, .ifStmt, .invalid] := by
  obtain ⟨raw, -, rfl⟩ := h
  cases hread : Construct.read raw with
  | error flaw =>
    rw [ofRaw_of_error hread] at hc
    cases hc
  | ok construct =>
    rw [ofRaw_of_ok hread] at hc
    obtain ⟨other, rfl, hkind⟩ : ∃ other, branch = ofRaw other ∧
        (other.kind = "brace_stmt" ∨ other.kind = "if_stmt") := by
      cases construct with
      | ifStmt test body other =>
        cases other with
        | none => cases hc
        | some other =>
          cases hc
          exact ⟨other, rfl, Construct.read_hasElse raw _ hread _ _ _ rfl⟩
      | _ => cases hc
    have hallows := allows_ofRaw other
    rcases hkind with hkind | hkind
    · rw [hkind] at hallows
      rcases hallows with hinvalid | hblock
      · simp [hinvalid]
      · simp [← Option.some.inj hblock]
    · rw [hkind] at hallows
      rcases hallows with hinvalid | hif
      · simp [hinvalid]
      · simp [← Option.some.inj hif]

end Node

end Swift

end SwiftToKotlin
