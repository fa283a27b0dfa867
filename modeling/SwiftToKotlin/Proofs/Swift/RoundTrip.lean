import Mathlib.Data.List.Perm.Subperm
import SwiftToKotlin.Proofs.Swift.Origins
import SwiftToKotlin.Proofs.Swift.Writing.Layer

/-!
# Reading a tree that was written

A well-formed tree is read back from its dump, with the same ranges and without a diagnostic. The
catalogue accepts the node of every admissible construct, so a layer is read as what it was written
from, and the parts of a layer are read as if they stood alone.
-/

namespace SwiftToKotlin.Swift

/-! ## The catalogue accepts what is written -/

namespace Catalogue

theorem nodup_kinds : (entries.map Entry.kind).Nodup := by
  decide +kernel

/-- An entry is found by its kind. -/
theorem entryFor?_of_mem (h : entry ∈ entries) : entryFor? entry.kind = some entry := by
  have hfound (list : List Entry) (hnodup : (list.map Entry.kind).Nodup) (hmem : entry ∈ list) :
      list.find? (·.kind == entry.kind) = some entry := by
    induction list with
    | nil => cases hmem
    | cons first rest ih =>
      rw [List.map_cons, List.nodup_cons] at hnodup
      rcases List.mem_cons.1 hmem with rfl | hmem
      · simp
      · have hne : first.kind ≠ entry.kind := fun heq => hnodup.1 (heq ▸ List.mem_map_of_mem hmem)
        rw [List.find?_cons_of_neg (by simpa using hne)]
        exact ih hnodup.2 hmem
  exact hfound entries nodup_kinds h

end Catalogue

theorem Entry.validate_eq_ok {entry : Entry} (hkeys : ∀ key ∈ entry.required, raw.has key = true)
    (hleast : entry.minChildren ≤ raw.children.length)
    (hmost : ∀ most ∈ entry.maxChildren, raw.children.length ≤ most) :
    entry.validate raw = .ok () := by
  have hnone : entry.required.find? (fun key => !raw.has key) = none := by
    simpa using hkeys
  rw [Entry.validate, hnone]
  rw [if_neg (Nat.not_lt.2 hleast)]
  cases hmax : entry.maxChildren with
  | none => rfl
  | some most => exact if_neg (Nat.not_lt.2 (hmost most hmax))

namespace Construct

variable {α : Type}

theorem length_paramList_le (nodes) : (Writing.paramList nodes).length ≤ 1 := by
  unfold Writing.paramList
  split <;> simp

theorem length_optionalBraces_le (body) : (Writing.optionalBraces body).length ≤ 1 := by
  cases body <;> simp [Writing.optionalBraces]

/-- Accessors of different kinds are at most two. -/
theorem length_accessors_le {accessors : List (Accessor α)}
    (h : (accessors.map Accessor.kind).Nodup) : accessors.length ≤ 2 := by
  have hsub : accessors.map Accessor.kind ⊆ [.get, .set] := by
    intro kind _
    cases kind <;> simp
  simpa using (h.subperm hsub).length_le

/-- The attributes that the node of a construct always has. -/
def requiredKeys : Construct α → List String
  | importModule _ => ["module"]
  | function _ | variableDecl _ | typeDecl _ _ | enumCase _ => ["name"]
  | reference _ _ | member _ _ | implicitMember _ _ => ["name"]
  | extensionDecl _ _ | cast _ _ _ => ["type"]
  | typeAlias _ _ => ["name", "type"]
  | forEach _ _ _ => ["variable"]
  | literal value => (Writing.literalAttributes value).map Prod.fst
  | binary _ _ _ | prefixUnary _ _ => ["operator"]
  | _ => []

/-- The least and the greatest number of children that the node of a construct can have. -/
def childBounds : Construct α → Nat × Option Nat
  | importModule _ | typeAlias _ _ | breakStmt | continueStmt => (0, some 0)
  | literal _ | reference _ _ | implicitMember _ _ => (0, some 0)
  | returnStmt _ => (0, some 1)
  | function _ | initializer _ _ | enumCase _ => (0, some 2)
  | variableDecl _ => (0, some 3)
  | throwStmt _ | deferStmt _ | prefixUnary _ _ | member _ _ | wrapped _ _ | cast _ _ _ =>
    (1, some 1)
  | closure _ _ => (1, some 2)
  | switchStmt _ _ | doCatch _ _ | call _ _ => (1, none)
  | guardStmt _ _ | whileStmt _ _ | repeatWhile _ _ | forEach _ _ _ => (2, some 2)
  | binary _ _ _ | assign _ _ | subscript _ _ => (2, some 2)
  | ifStmt _ _ _ => (2, some 3)
  | ternary _ _ _ => (3, some 3)
  | _ => (0, none)

/-- What the catalogue has to say about the node of a construct. -/
def entry (construct : Construct α) : Entry :=
  ⟨construct.dumpKind, some construct.tag, construct.childBounds.1, construct.childBounds.2,
    construct.requiredKeys⟩

attribute [local simp] entry dumpKind tag childBounds requiredKeys dumpAttributes dumpChildren

theorem entry_mem_entries {construct : Construct α} (h : construct.Admissible) :
    construct.entry ∈ Catalogue.entries := by
  have hdeclaration {entry : Entry} (h : entry ∈ Catalogue.declarations) :
      entry ∈ Catalogue.entries := by
    simp [Catalogue.entries, h]
  have hstatement {entry : Entry} (h : entry ∈ Catalogue.statements) :
      entry ∈ Catalogue.entries := by
    simp [Catalogue.entries, h]
  have hexpression {entry : Entry} (h : entry ∈ Catalogue.expressions) :
      entry ∈ Catalogue.entries := by
    simp [Catalogue.entries, h]
  cases construct with
  | typeDecl kind =>
    refine hdeclaration ?_
    cases kind <;>
      simp [Catalogue.declarations, Writing.typeKind]
  | file | importModule | function | initializer | variableDecl | enumCase | extensionDecl
  | typeAlias =>
    refine hdeclaration ?_
    simp [Catalogue.declarations]
  | literal value =>
    refine hexpression ?_
    cases value <;>
      simp [Catalogue.expressions, Writing.literalKind, Literal.tag, Writing.literalAttributes]
  | wrapped form =>
    refine hexpression ?_
    cases form <;>
      simp [Catalogue.expressions, Writing.wrapperKind]
  | cast kind =>
    refine hexpression ?_
    cases kind <;>
      simp [Catalogue.expressions, Writing.castKind]
  | interpolated | reference | binary | prefixUnary | assign | call | member | implicitMember
  | subscript | arrayLiteral | dictionaryLiteral | tuple | closure | ternary =>
    refine hexpression ?_
    simp [Catalogue.expressions]
  | invalid | unknown => exact h.elim
  | _ =>
    refine hstatement ?_
    simp [Catalogue.statements]

theorem any_requiredKeys (construct : Construct Dump.Node) :
    ∀ key ∈ construct.requiredKeys, construct.dumpAttributes.any (·.1 == key) = true := by
  cases construct with
  | literal value => cases value <;> simp
  | _ => simp

theorem length_dumpChildren {construct : Construct Dump.Node} (h : construct.Admissible) :
    construct.childBounds.1 ≤ construct.dumpChildren.length ∧
      ∀ most ∈ construct.childBounds.2, construct.dumpChildren.length ≤ most := by
  have hsignature (params : List (Param Dump.Node)) (body : Option (List Dump.Node)) :
      (Writing.paramList (params.map Writing.param)).length +
        (Writing.optionalBraces body).length ≤ 1 + 1 :=
    Nat.add_le_add (length_paramList_le _) (length_optionalBraces_le body)
  cases construct with
  | function decl => simpa using hsignature decl.params decl.body
  | initializer params body => simpa using hsignature params body
  | variableDecl decl =>
    have hcount : decl.init.toList.length + decl.accessors.length ≤ 1 + 2 :=
      Nat.add_le_add Option.length_toList_le (length_accessors_le h.2)
    simpa using hcount
  | enumCase decl =>
    have hcount : (Writing.paramList (decl.params.map Writing.param)).length +
        decl.rawValue.toList.length ≤ 1 + 1 :=
      Nat.add_le_add (length_paramList_le _) Option.length_toList_le
    simpa using hcount
  | ifStmt test thenBranch elseBranch =>
    have hcount : elseBranch.toList.length ≤ 1 := Option.length_toList_le
    refine ⟨Nat.le_add_left 2 _, ?_⟩
    rintro most ⟨⟩
    exact Nat.add_le_add_right hcount 2
  | closure params body =>
    simpa using length_paramList_le (params.map Writing.closureParam)
  | _ => simp

/-- The catalogue has nothing against the node of an admissible construct, and leaves it to the
reading for its tag. -/
theorem read_toDump_eq_asTagged (range) {construct : Construct Dump.Node}
    (h : construct.Admissible) :
    read (construct.toDump range) = Reading.asTagged (construct.toDump range) construct.tag := by
  have hfound : Catalogue.entryFor? (construct.toDump range).kind = some construct.entry :=
    Catalogue.entryFor?_of_mem (entry_mem_entries h)
  have hvalid : construct.entry.validate (construct.toDump range) = .ok () :=
    Entry.validate_eq_ok construct.any_requiredKeys (length_dumpChildren h).1
      (length_dumpChildren h).2
  rw [read, hfound]
  simp only [hvalid]
  rfl

theorem maybeExpression_dumpKind {construct : Construct α} (h : construct.Admissible) :
    Reading.maybeExpression construct.dumpKind = construct.tag.isExpression := by
  have hfound : Catalogue.entryFor? construct.dumpKind = some construct.entry :=
    Catalogue.entryFor?_of_mem (entry_mem_entries h)
  rw [Reading.maybeExpression, hfound]
  rfl

/-- An admissible construct is read from its node. -/
theorem read_toDump (range) (h : construct.Admissible) (hvalues : Reading.HasValues construct)
    (helse : ∀ branch ∈ construct.alternative,
      branch.kind = "brace_stmt" ∨ branch.kind = "if_stmt") :
    read (construct.toDump range) = .ok construct := by
  rw [read_toDump_eq_asTagged range h]
  exact Reading.asTagged_toDump range h hvalues helse

/-! ## Well-formed trees -/

theorem Admissible.map {β : Type} {construct : Construct α} (h : construct.Admissible)
    (f : α → β) : (construct.map f).Admissible := by
  have hparams {params : List (Param α)} (hparams : ∀ param ∈ params, param.Admissible) :
      ∀ param ∈ params.map (Param.map f), param.Admissible := by
    intro param hparam
    obtain ⟨own, hown, rfl⟩ := List.mem_map.1 hparam
    exact hparams own hown
  cases construct with
  | function decl => exact ⟨hparams h.1, h.2⟩
  | initializer params body => exact hparams h
  | variableDecl decl =>
    have hkinds : (decl.accessors.map (Accessor.map f)).map Accessor.kind =
        decl.accessors.map Accessor.kind := by
      rw [List.map_map]
      rfl
    exact ⟨h.1, hkinds ▸ h.2⟩
  | enumCase decl =>
    refine ⟨hparams h.1, h.2.imp (fun hnone => ?_) fun hnone => ?_⟩
    · exact List.map_eq_nil_iff.2 hnone
    · exact Option.map_eq_none_iff.2 hnone
  | switchStmt subject cases =>
    have hpatterns : (fun case : SwitchCase β => case.patterns.isEmpty) ∘ SwitchCase.map f =
        fun case => case.patterns.isEmpty := by
      funext case
      simp [SwitchCase.map]
    have hcount : ((cases.map (SwitchCase.map f)).filter (·.patterns.isEmpty)).length ≤ 1 := by
      rw [List.filter_map, hpatterns, List.length_map]
      exact h
    exact hcount
  | doCatch body catches =>
    refine ⟨fun hnil => h.1 (List.map_eq_nil_iff.1 hnil), fun clause hclause => ?_⟩
    obtain ⟨own, hown, rfl⟩ := List.mem_map.1 hclause
    exact h.2 own hown
  | call callee arguments =>
    intro argument hargument
    obtain ⟨own, hown, rfl⟩ := List.mem_map.1 hargument
    exact h own hown
  | _ => exact h

theorem kind_of_isAlternative {construct : Construct α}
    (h : construct.tag = .block ∨ construct.tag = .ifStmt) :
    construct.dumpKind = "brace_stmt" ∨ construct.dumpKind = "if_stmt" := by
  cases construct with
  | block => exact .inl rfl
  | ifStmt => exact .inr rfl
  | literal value => cases value <;> simp [Literal.tag] at h
  | _ => simp at h

end Construct

namespace Node

/-- The layer is admissible, has expressions where values are expected, and has a block or another
condition after `else`. -/
structure WellFormedLayer (construct : Construct Node) : Prop where
  admissible : construct.Admissible
  values : ∀ part, (Role.value, part) ∈ construct.positions →
    part.construct.tag.isExpression = true
  alternative : ∀ branch ∈ construct.alternative,
    branch.construct.tag = .block ∨ branch.construct.tag = .ifStmt

/-- Every layer of the tree is well-formed. -/
inductive WellFormed : Node → Prop
  | mk {construct : Construct Node} {range : Option SourceRange} (layer : WellFormedLayer construct)
      (parts : ∀ part ∈ construct.parts, WellFormed part) : WellFormed ⟨construct, range⟩

variable {node : Node}

theorem WellFormed.placeholders_eq_nil (h : node.WellFormed) : node.placeholders = [] := by
  induction h with
  | @mk construct range layer _ ih =>
    have hown : construct.placeholder range = [] := by
      cases construct with
      | invalid | unknown => exact layer.admissible.elim
      | _ => rfl
    rw [placeholders_mk, hown, List.nil_append, List.flatMap_eq_nil_iff]
    exact ih

theorem isValue_toDump (h : node.WellFormed) (hexpr : node.construct.tag.isExpression = true) :
    Reading.IsValue node.toDump := by
  cases h with
  | mk layer =>
    rw [Reading.IsValue, kind_toDump, Construct.maybeExpression_dumpKind layer.admissible]
    exact hexpr

/-- A layer of a well-formed tree is read from the node that stands for it. -/
theorem read_toDump_of_wellFormed {construct : Construct Node} {range : Option SourceRange}
    (h : WellFormed ⟨construct, range⟩) :
    Construct.read ((construct.map toDump).toDump range) = .ok (construct.map toDump) := by
  cases h with
  | mk layer parts =>
    refine Construct.read_toDump range (layer.admissible.map toDump) ?_ ?_
    · intro value hvalue
      rw [Construct.positions_map] at hvalue
      obtain ⟨⟨role, part⟩, hpart, heq⟩ := List.mem_map.1 hvalue
      obtain ⟨rfl, rfl⟩ := Prod.mk.inj heq
      have hwell := parts part (Construct.mem_parts_of_mem_positions hpart)
      exact isValue_toDump hwell (layer.values part hpart)
    · intro branch hbranch
      rw [Construct.alternative_map] at hbranch
      obtain ⟨part, hpart, rfl⟩ := Option.map_eq_some_iff.1 hbranch
      rw [kind_toDump]
      exact Construct.kind_of_isAlternative (layer.alternative part hpart)

/-- The tree itself is read, for each part is read as if it stood alone. -/
theorem ofRaw_toDump (h : node.WellFormed) : ofRaw node.toDump = node := by
  induction h with
  | @mk construct range layer parts ih =>
    have hread : Construct.read ((construct.map toDump).toDump range) =
        .ok (construct.map toDump) :=
      read_toDump_of_wellFormed (.mk layer parts)
    have hparts : construct.map (ofRaw ∘ toDump) = construct.map id := Construct.map_congr ih
    rw [toDump_mk, ofRaw_of_ok hread, Construct.map_map, hparts, Construct.map_id]
    rfl

/-- A well-formed tree is read back from its dump as it was, ranges included, and reading it tells
nothing. -/
theorem ofDump_toDump_eq_self (h : node.WellFormed) (found : List Diagnostic) :
    (ofDump node.toDump).run found = (node, found) := by
  have htree : treeWithin (2 * node.toDump.height) node.toDump = node := ofRaw_toDump h
  rw [ofDump, ofDumpWithin_eq, htree, h.placeholders_eq_nil]
  exact congrArg (Prod.mk node) (List.append_nil found)

/-- The function
`static func first(_ found: Bool = true) -> Int? { if found { return 1 } else { return nil } }`. -/
def firstIfFound : Node :=
  ⟨.function
    { name := "first", isStatic := true, isMutating := false, throws := false, isOverride := false
      params := [⟨none, "found", .named "Bool" [], some ⟨.literal (.boolean true), none⟩⟩]
      result := some (.optional (.named "Int" []))
      body := some [⟨.ifStmt (.expr ⟨.reference "found" none, none⟩)
        [⟨.returnStmt (some ⟨.literal (.integer "1"), none⟩), none⟩]
        (some ⟨.block [⟨.returnStmt (some ⟨.literal .nil, none⟩), none⟩], none⟩), none⟩] },
    some ⟨"first.swift", 1, 1, 3, 2⟩⟩

theorem firstIfFound_wellFormed : firstIfFound.WellFormed := by
  have hliteral {value : Literal} (h : value.Admissible) : WellFormed ⟨.literal value, none⟩ :=
    .mk ⟨h, by simp, by simp [Construct.alternative]⟩ (by simp [Construct.parts])
  have hreturn {value : Literal} (h : value.Admissible) :
      WellFormed ⟨.returnStmt (some ⟨.literal value, none⟩), none⟩ := by
    have hexpr : value.tag.isExpression = true := by cases value <;> rfl
    refine .mk ⟨trivial, by simpa [Construct.tag] using hexpr, by simp [Construct.alternative]⟩ ?_
    simpa [Construct.parts] using hliteral h
  have hfound : WellFormed ⟨.reference "found" none, none⟩ :=
    .mk ⟨by simp [Construct.Admissible], by simp, by simp [Construct.alternative]⟩
      (by simp [Construct.parts])
  have hblock : WellFormed ⟨.block [⟨.returnStmt (some ⟨.literal .nil, none⟩), none⟩], none⟩ :=
    .mk ⟨trivial, by simp, by simp [Construct.alternative]⟩
      (by simpa [Construct.parts] using @hreturn .nil trivial)
  have hone : Literal.Admissible (.integer "1") := by
    rw [Literal.Admissible]
    decide
  have hnamed {name : String} (h : TyParser.IsPart name) (hinout : name ≠ "inout")
      (howned : name ≠ "__owned") (hplain : TyParser.ofName name [] = .named name []) :
      (Ty.named name []).Readable :=
    .named ⟨name, [], rfl, h, hinout, howned, by simp⟩ hplain (by simp)
  have hbool : (Ty.named "Bool" []).Readable :=
    hnamed ⟨by decide, List.all_eq_true.1 (by decide)⟩ (by decide) (by decide) rfl
  have hint : (Ty.optional (.named "Int" [])).Readable :=
    .optional (hnamed ⟨by decide, List.all_eq_true.1 (by decide)⟩ (by decide) (by decide) rfl)
  have hcondition : WellFormed ⟨.ifStmt (.expr ⟨.reference "found" none, none⟩)
      [⟨.returnStmt (some ⟨.literal (.integer "1"), none⟩), none⟩]
      (some ⟨.block [⟨.returnStmt (some ⟨.literal .nil, none⟩), none⟩], none⟩), none⟩ := by
    refine .mk ⟨trivial, ?_, by simp [Construct.alternative, Construct.tag]⟩ ?_
    · intro part hpart
      have hpart : part = ⟨.reference "found" none, none⟩ := by simpa [Condition.parts] using hpart
      rw [hpart]
      rfl
    · simpa [Construct.parts, Condition.parts] using ⟨hfound, hreturn hone, hblock⟩
  refine .mk ⟨⟨?_, by simpa [Ty.isRead_iff_readable] using hint⟩, ?_, ?_⟩ ?_
  · simpa [Param.Admissible, Ty.isRead_iff_readable] using hbool
  · intro part hpart
    have hpart : part = ⟨.literal (.boolean true), none⟩ := by simpa [Param.parts] using hpart
    rw [hpart]
    rfl
  · simp [Construct.alternative]
  · simpa [Construct.parts, Param.parts] using ⟨@hliteral (.boolean true) trivial, hcondition⟩

theorem firstIfFound_reread :
    firstIfFound.WellFormed ∧ (ofDump firstIfFound.toDump).run [] = (firstIfFound, []) :=
  ⟨firstIfFound_wellFormed, ofDump_toDump_eq_self firstIfFound_wellFormed []⟩

end Node

end SwiftToKotlin.Swift
