import SwiftToKotlin.Conversion
import SwiftToKotlin.Proofs.Lowering.StackDiscipline

/-!
# Comments and diagnostics agree

Every comment in the output has a diagnostic at the same place, and every refusal leaves its
comment: nothing that is lowered is dropped afterwards. Lowering accounts for its comments as long
as lowering the parts does and the placeholders in the source have been told.
-/

namespace SwiftToKotlin.Lowering

open Swift (Node Role)
open Kotlin (Note notes)

/-! ## Trees whose placeholders have been told -/

/-- All placeholders of the tree have been told. -/
def Known (told : List Diagnostic) (node : Node) : Prop :=
  node.placeholders ⊆ told

namespace Known

/-- The comment for a placeholder is one of those that have been told. -/
theorem note_mem (h : Known told node) (hc : node.construct = construct)
    (hd : d ∈ construct.placeholder node.range) (hnote : d.placeholder? = some note) :
    note ∈ told.filterMap Diagnostic.placeholder? := by
  subst hc
  refine List.mem_filterMap.2 ⟨d, h ?_, hnote⟩
  cases node
  rw [Node.placeholders_mk]
  exact List.mem_append_left _ hd

theorem part (h : Known told node) {part : Node} (hpart : part ∈ node.construct.parts) :
    Known told part := by
  cases node
  intro d hd
  apply h
  rw [Node.placeholders_mk]
  exact List.mem_append_right _ (List.mem_flatMap.2 ⟨part, hpart, hd⟩)

end Known

/-- Lowering the parts accounts for comments. -/
structure Descent.Accounting (descent : Descent) (told : List Diagnostic) : Prop where
  statement : ∀ {node}, Known told node →
    Accounts told [] (descent.statement node) fun nodes => nodes
  value : ∀ {node}, Known told node → Accounts told [] (descent.value node) fun node => [node]

/-! ## Accounting by the rules -/

/-- The frame in which placeholders have been told. -/
def Frame.telling (told : List Diagnostic) : Frame :=
  { Frame.free with
    allowed := fun _ _ node => Known told node
    noted := fun note => note ∈ told.filterMap Diagnostic.placeholder? }

theorem Frame.lowers_telling (h : Known told node) (place) :
    (Frame.telling told).Lowers place node where
  allowed _ _ hpart := hpart.inherits (fun _ hwhole _ => hwhole.part) h
  extension _ _ _ := trivial
  names _ _ := trivial
  partNames _ _ _ _ _ := trivial
  invalid _ _ hc := h.note_mem hc (List.mem_singleton_self _) rfl
  unknown _ _ hc := h.note_mem hc (List.mem_singleton_self _) rfl

/-- Plain layers have the comments of what they are around, up to those of placeholders. -/
theorem notes_of_around (h : (Frame.telling told).Around made nodes) :
    notes made ⊆ notes nodes ∧
      notes nodes ⊆ notes made ++ told.filterMap Diagnostic.placeholder? := by
  constructor
  · intro note hnote
    exact Kotlin.mem_notes_iff.2 (h.kept _ (Kotlin.mem_notes_iff.1 hnote))
  · intro note hnote
    rcases h.fresh _ (Kotlin.mem_notes_iff.1 hnote) with hmade | htold
    · exact List.mem_append_left _ (Kotlin.mem_notes_iff.2 hmade)
    · exact List.mem_append_right _ htold

/-- What is built by the rules accounts for its comments. -/
theorem accounts_of_builds {α : Type} {action : Descent → Lower α} {parts : α → List Kotlin.Node}
    {known : α → Prop} (below : descent.Accounting told)
    (h : (Frame.telling told).Builds role place made action parts known) :
    Accounts told made (action descent) parts := by
  -- What makes no nodes and refuses nothing has no comments to account for.
  have hnothing {β : Type} {action : Lower β} (h : Keeps Quiet action) :
      Accounts told [] action fun _ => [] :=
    .of_quiet h fun _ _ => ⟨List.nil_subset _, List.nil_subset _⟩
  induction h with
  | value h => exact below.value h
  | statement h => exact below.statement h
  | given h => exact .of_quiet (.pure _) fun _ _ => notes_of_around h
  | knowing h _ ih ihf => exact ih.bind (h.known_run (fun _ => trivial) descent) ihf
  | handing _ hmade ih => exact ih.handing (notes_of_around hmade).1 (notes_of_around hmade).2
  | silent h => exact hnothing (h _ fun _ _ hnote _ => quiet_report hnote)
  | nameCase | declare | narrow | declareFresh => exact hnothing fun _ _ => rfl
  | reference name range =>
    intro context state
    obtain ⟨written, _, hrun⟩ := exists_run_reference name range context state
    rw [hrun]
    exact ⟨[], by simp⟩
  | refuse hnote => exact .refuse hnote
  | @refuseIf obstacle range _ _ action test _ hnote _ _ ih =>
    intro context state
    have hrest : Accounts told [] (if test state.surroundings then refuse obstacle range
        else action descent) fun node => [node] := by
      split
      · exact .refuse hnote
      · exact ih
    exact hrest context state
  | @breakStmt range =>
    intro context state
    have hrest : Accounts told [] (if state.surroundings.inCase then refuse .breakInCase range
        else pure ⟨.breakStmt, range⟩) fun node => [node] := by
      split
      · exact .refuse rfl
      · exact .of_quiet (.pure _) fun _ _ => notes_of_around (.around trivial (by simp))
    exact hrest context state
  | entering _ _ ih | expecting _ _ ih | withScope _ _ _ ih => exact ih.surrounded
  | inBlock _ ih => exact ih.inBlock
  | inClosure _ ih => exact ih.inClosure

/-- Trees of any height account for their comments. -/
theorem descend_accounting (told) (height : Nat) : (descend height).Accounting told := by
  induction height with
  | zero =>
    exact ⟨fun _ => .of_quiet (.pure _) fun _ _ => notes_of_around (.refl _),
      fun _ => .of_quiet (.pure _) fun _ _ => notes_of_around (.around (by simp) (by simp))⟩
  | succ height ih =>
    refine ⟨fun h => accounts_of_builds ih (builds_lowerStatement
      ⟨Frame.lowers_telling h {}, fun _ _ => trivial, fun _ _ => trivial⟩), fun {node} h => ?_⟩
    have hvalue : (Frame.telling told).MakesNode .value {} [] fun descent =>
        Expression.lower descent node :=
      Expression.builds_lower ⟨Frame.lowers_telling h {}, fun _ => trivial⟩
    exact accounts_of_builds ih hvalue

/-! ## Whole trees -/

@[simp] theorem comments_fileOf (range nodes) : (fileOf range nodes).comments = notes nodes := by
  unfold fileOf
  split <;> simp

theorem lower_eq (droppedImports) (root : Node) (diagnostics) :
    lower droppedImports root diagnostics =
      let result := (((descend root.height).statement root).run
        { types := .ofTree root, droppedImports }).run { diagnostics }
      (fileOf root.range result.1, result.2.diagnostics) :=
  rfl

theorem prefix_lower (droppedImports) (root : Node) (diagnostics) :
    diagnostics <+: (lower droppedImports root diagnostics).2 := by
  exact ((descend_follows stackDiscipline root.height).statement root _ { diagnostics }).diagnostics

/-- Nothing is refused while a dump is read. -/
theorem refusals_placeholders (root : Node) : refusals root.placeholders = [] := by
  refine List.filterMap_eq_nil_iff.2 fun d hd => ?_
  obtain ⟨cause, range⟩ := d
  rcases Node.cause_of_mem_placeholders _ hd with ⟨kind, flaw, hcause⟩ | ⟨kind, hcause⟩
  · cases hcause
    rfl
  · cases hcause
    rfl

/-- The comments of a lowered tree are those of its refusals, up to those of placeholders. -/
theorem lower_accounts (droppedImports) (root : Node) :
    refusals (lower droppedImports root root.placeholders).2 ⊆
        (lower droppedImports root root.placeholders).1.comments ∧
      (lower droppedImports root root.placeholders).1.comments ⊆
        refusals (lower droppedImports root root.placeholders).2 ++
          root.placeholders.filterMap Diagnostic.placeholder? := by
  obtain ⟨news, hnews, hkept, honly⟩ :=
    (descend_accounting root.placeholders root.height).statement (List.Subset.refl _)
      { types := .ofTree root, droppedImports } { diagnostics := root.placeholders }
  rw [refusals_placeholders, List.nil_append] at hnews
  rw [lower_eq]
  rw [comments_fileOf, hnews]
  exact ⟨hkept, honly⟩

end SwiftToKotlin.Lowering

namespace SwiftToKotlin

open Kotlin (Note)

theorem Diagnostic.eq_of_refusal? {d : Diagnostic} {range : Option SourceRange}
    (h : d.refusal? = some (text, range)) :
    ∃ obstacle, d = ⟨.noEquivalent obstacle, range⟩ ∧ text = obstacle.message := by
  unfold refusal? at h
  split at h
  · cases h
  · next obstacle _ _ =>
    cases h
    exact ⟨obstacle, rfl, rfl⟩
  · cases h

theorem Diagnostic.eq_of_placeholder? {d : Diagnostic} {range : Option SourceRange}
    (h : d.placeholder? = some (text, range)) :
    (∃ kind flaw, d = ⟨.malformed kind flaw, range⟩ ∧
        text = s!"invalid `{kind}`: {flaw.message}") ∨
      ∃ kind, d = ⟨.unrecognized kind, range⟩ ∧ text = s!"unrecognized construct: {kind}" := by
  unfold placeholder? at h
  split at h
  · next kind flaw _ =>
    cases h
    exact .inl ⟨kind, flaw, rfl, rfl⟩
  · next kind _ =>
    cases h
    exact .inr ⟨kind, rfl, rfl⟩
  · cases h

theorem Lowering.Obstacle.message_ty (type : Swift.Ty) (cause) :
    (Obstacle.ty type cause).message =
      "no Kotlin equivalent for " ++ ("type `" ++ type.display ++ "`") ++ ": " ++ cause.reason :=
  rfl

theorem Lowering.Obstacle.prefix_message_ty (type : Swift.Ty) (cause) :
    "no Kotlin equivalent for type".toList <+: (Obstacle.ty type cause).message.toList := by
  rw [message_ty]
  simp

/-- Whatever is refused leaves a comment, unless the message says that it is a type. -/
theorem Diagnostic.refusal?_noEquivalent
    (h : ¬ "no Kotlin equivalent for type".toList <+: obstacle.message.toList) (range) :
    refusal? ⟨.noEquivalent obstacle, range⟩ = some (obstacle.message, range) := by
  cases obstacle with
  | ty type cause => exact absurd (Lowering.Obstacle.prefix_message_ty type cause) h
  | _ => rfl

namespace Conversion

variable (settings : Settings) (dump : Dump.Node)

theorem ofDump_eq :
    ofDump settings dump =
      let swift := ((Swift.Node.ofDump dump).run []).1
      let lowered := Lowering.lower settings.droppedImports swift swift.placeholders
      ⟨swift, lowered.1, lowered.2⟩ := by
  obtain ⟨node, hnode⟩ := Swift.Node.ofDumpWithin_eq_telling (2 * dump.height) dump
  have hrun : (Swift.Node.ofDump dump).run [] = (node, node.placeholders) := by
    rw [Swift.Node.ofDump, hnode]
    rfl
  simp [ofDump, hrun]

/-- A comment stands for something that the diagnostics tell of at its place. -/
theorem exists_diagnostic_of_mem_comments
    (h : (text, range) ∈ (ofDump settings dump).kotlin.comments) :
    (∃ obstacle, ⟨.noEquivalent obstacle, range⟩ ∈ (ofDump settings dump).diagnostics ∧
        text = obstacle.message) ∨
      (∃ kind flaw, ⟨.malformed kind flaw, range⟩ ∈ (ofDump settings dump).diagnostics ∧
        text = s!"invalid `{kind}`: {flaw.message}") ∨
      ∃ kind, ⟨.unrecognized kind, range⟩ ∈ (ofDump settings dump).diagnostics ∧
        text = s!"unrecognized construct: {kind}" := by
  rw [ofDump_eq] at h ⊢
  generalize ((Swift.Node.ofDump dump).run []).1 = swift at h ⊢
  rcases List.mem_append.1 ((Lowering.lower_accounts _ swift).2 h) with hrefused | htold
  · obtain ⟨d, hd, hnote⟩ := List.mem_filterMap.1 hrefused
    obtain ⟨obstacle, rfl, htext⟩ := Diagnostic.eq_of_refusal? hnote
    exact .inl ⟨obstacle, hd, htext⟩
  · obtain ⟨d, hd, hnote⟩ := List.mem_filterMap.1 htold
    have hfinal := (Lowering.prefix_lower settings.droppedImports swift _).subset hd
    rcases Diagnostic.eq_of_placeholder? hnote with ⟨kind, flaw, rfl, htext⟩ | ⟨kind, rfl, htext⟩
    · exact .inr (.inl ⟨kind, flaw, hfinal, htext⟩)
    · exact .inr (.inr ⟨kind, hfinal, htext⟩)

/-- A construct that is refused leaves a comment in its place. -/
theorem mem_comments_of_refusal
    (h : ⟨.noEquivalent obstacle, range⟩ ∈ (ofDump settings dump).diagnostics)
    (hconstruct : ¬ "no Kotlin equivalent for type".toList <+: obstacle.message.toList) :
    (obstacle.message, range) ∈ (ofDump settings dump).kotlin.comments := by
  rw [ofDump_eq] at h ⊢
  exact (Lowering.lower_accounts _ _).1
    (List.mem_filterMap.2 ⟨_, h, Diagnostic.refusal?_noEquivalent hconstruct range⟩)

/-- Every comment has its diagnostic at the same place, and every construct that is refused its
comment, types apart. Without errors only nodes of unknown kinds leave comments, and without any
diagnostic there are none. -/
theorem ofDump_comments_match_diagnostics :
    (∀ text range, (text, range) ∈ (ofDump settings dump).kotlin.comments →
      (∃ obstacle, ⟨.noEquivalent obstacle, range⟩ ∈ (ofDump settings dump).diagnostics ∧
        text = obstacle.message) ∨
      (∃ kind flaw, ⟨.malformed kind flaw, range⟩ ∈ (ofDump settings dump).diagnostics ∧
        text = s!"invalid `{kind}`: {flaw.message}") ∨
      ∃ kind, ⟨.unrecognized kind, range⟩ ∈ (ofDump settings dump).diagnostics ∧
        text = s!"unrecognized construct: {kind}") ∧
    (∀ obstacle range, ⟨.noEquivalent obstacle, range⟩ ∈ (ofDump settings dump).diagnostics →
      ¬ "no Kotlin equivalent for type".toList <+: obstacle.message.toList →
        (obstacle.message, range) ∈ (ofDump settings dump).kotlin.comments) ∧
    ((ofDump settings dump).hasErrors = false →
      ∀ text range, (text, range) ∈ (ofDump settings dump).kotlin.comments →
        ∃ kind, ⟨.unrecognized kind, range⟩ ∈ (ofDump settings dump).diagnostics ∧
          text = s!"unrecognized construct: {kind}") ∧
    ((ofDump settings dump).diagnostics = [] → (ofDump settings dump).kotlin.comments = []) := by
  refine ⟨fun _ _ => exists_diagnostic_of_mem_comments settings dump,
    fun _ _ => mem_comments_of_refusal settings dump, ?_, ?_⟩
  · intro hclean text range hnote
    have hnone (d : Diagnostic) (hd : d ∈ (ofDump settings dump).diagnostics) :
        ¬ d.isError = true :=
      List.any_eq_false.1 hclean d hd
    rcases exists_diagnostic_of_mem_comments settings dump hnote with
      ⟨obstacle, hd, -⟩ | ⟨kind, flaw, hd, -⟩ | hunknown
    · exact absurd rfl (hnone _ hd)
    · exact absurd rfl (hnone _ hd)
    · exact hunknown
  · intro hempty
    refine List.eq_nil_iff_forall_not_mem.2 fun ⟨text, range⟩ hnote => ?_
    have hsome := exists_diagnostic_of_mem_comments settings dump hnote
    simp [hempty] at hsome

end Conversion

end SwiftToKotlin
