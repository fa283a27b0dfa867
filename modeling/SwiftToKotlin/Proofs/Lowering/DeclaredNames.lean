import SwiftToKotlin.Proofs.Lowering.Comments
import SwiftToKotlin.Proofs.Lowering.Keywords

/-!
# Bare keywords among the declared names

A declared name is a bare keyword only if the keyword is overlooked and something in Swift has it as
its name. No other declaration can be at fault, whatever becomes of the names on the way: lowering
declares names of a kind for those of the source as long as lowering the parts does.
-/

namespace SwiftToKotlin

namespace Lowering

open Swift (Node Role)
open Kotlin (AllDeclareOnly hardKeywords)

/-! ## Naming by the rules -/

/-- Lowering the parts declares names of the second kind for those of the first. -/
structure Descent.Names (descent : Descent) (S Q : String → Prop) : Prop where
  statement : ∀ {node : Node}, node.DeclaresOnly S →
    Ensures Q (descent.statement node) (AllDeclareOnly Q)
  value : ∀ {node : Node}, node.DeclaresOnly S →
    Ensures Q (descent.value node) (Kotlin.Node.DeclaresOnly Q)

/-- The frame in which the source declares names of the first kind. -/
def Frame.ofNaming (naming : Naming S Q) : Frame :=
  { Frame.free with
    allowed := fun _ _ node => node.DeclaresOnly S
    source := S
    given := Q
    naming }

theorem Frame.lowers_ofNaming (naming : Naming S Q) (h : node.DeclaresOnly S) (place) :
    (Frame.ofNaming naming).Lowers place node where
  allowed _ _ hpart := hpart.inherits (fun _ hwhole => hwhole.parts rfl) h
  extension _ _ _ := trivial
  names := h.names rfl
  partNames _ _ hpart := (hpart.inherits (fun _ hwhole => hwhole.parts rfl) h).names rfl
  invalid _ _ _ := trivial
  unknown _ _ _ := trivial

variable {naming : Naming S Q}

/-- Plain layers declare names of the kind around nodes that do. -/
theorem allDeclareOnly_of_around (h : (Frame.ofNaming naming).Around made nodes)
    (hmade : AllDeclareOnly Q made) :
    AllDeclareOnly Q nodes := by
  rw [Kotlin.allDeclareOnly_iff] at hmade ⊢
  intro node hnode
  rcases h.fresh node hnode with hold | hplain
  · exact hmade node hold
  · obtain ⟨construct, range⟩ := node
    cases construct with
    | breakStmt | comment => simp
    | _ => exact hplain

/-- What is built by the rules declares names of the kind. -/
theorem ensures_of_builds {α : Type} {action : Descent → Lower α} {parts : α → List Kotlin.Node}
    {known : α → Prop} (below : descent.Names S Q)
    (h : (Frame.ofNaming naming).Builds role place made action parts known)
    (hmade : AllDeclareOnly Q made) :
    Ensures Q (action descent) fun a => AllDeclareOnly Q (parts a) ∧ known a := by
  have hrefusal (obstacle : Obstacle) (range : Option SourceRange) :
      Ensures Q (refuse obstacle range) fun node => AllDeclareOnly Q [node] ∧ True := by
    refine .of_sameCases (fun _ _ => rfl) fun _ _ => ⟨?_, trivial⟩
    change AllDeclareOnly Q [Kotlin.Node.comment obstacle.message range]
    simp [Kotlin.Node.comment]
  induction h with
  | value h => exact (below.value h).mono fun _ hnode => by simpa using hnode
  | statement h => exact (below.statement h).mono fun _ hnodes => ⟨hnodes, trivial⟩
  | given h hknown => exact .pure ⟨allDeclareOnly_of_around h hmade, hknown⟩
  | knowing _ _ ih ihf =>
    exact (ih (by simp)).bind fun a ha => ihf a ha.2 (by simpa using ⟨hmade, ha.1⟩)
  | handing _ hothers ih => exact ih (allDeclareOnly_of_around hothers hmade)
  | silent h hknown =>
    exact .of_sameCases (h _ fun _ _ _ _ => sameCases_report _ _) fun context state =>
      ⟨by simp, hknown context state⟩
  | nameCase => exact (nameCase_ensures naming _ _ _).mono fun _ hname => ⟨by simp, hname⟩
  | declare | narrow => exact .of_sameCases (fun _ _ => rfl) fun _ _ => by simp
  | declareFresh h => exact (declareFresh_ensures naming h _).mono fun _ hname => ⟨by simp, hname⟩
  | reference name range =>
    intro context state hstate
    obtain ⟨written, _, hrun⟩ := exists_run_reference name range context state
    rw [hrun]
    exact ⟨hstate, by simp [Kotlin.Node.reference]⟩
  | refuse => exact hrefusal _ _
  | @refuseIf obstacle range _ _ action test _ _ _ _ ih =>
    intro context state
    have hrest : Ensures Q (if test state.surroundings then refuse obstacle range
        else action descent) fun node => AllDeclareOnly Q [node] ∧ True := by
      split
      · exact hrefusal _ _
      · exact ih hmade
    exact hrest context state
  | @breakStmt range =>
    intro context state
    have hrest : Ensures Q (if state.surroundings.inCase then refuse .breakInCase range
        else pure ⟨.breakStmt, range⟩) fun node => AllDeclareOnly Q [node] ∧ True := by
      split
      · exact hrefusal _ _
      · exact .pure (by simp)
    exact hrest context state
  | entering _ _ ih | expecting _ _ ih | withScope _ _ _ ih => exact (ih hmade).surrounded
  | inBlock _ ih => exact (ih hmade).inBlock
  | inClosure _ ih => exact (ih hmade).inClosure

/-- Trees of any height declare names of the kind. -/
theorem descend_names (naming : Naming S Q) (height : Nat) : (descend height).Names S Q := by
  induction height with
  | zero => exact ⟨fun _ => .pure (by simp), fun _ => .pure (by simp [Kotlin.Node.reference])⟩
  | succ height ih =>
    constructor
    · intro node h
      have hstatement := builds_lowerStatement
        ⟨Frame.lowers_ofNaming naming h {}, fun _ _ => trivial, fun _ _ => trivial⟩
      exact (ensures_of_builds ih hstatement (by simp)).mono fun _ hnodes => hnodes.1
    · intro node h
      have hvalue : (Frame.ofNaming naming).MakesNode .value {} [] fun descent =>
          Expression.lower descent node :=
        Expression.builds_lower ⟨Frame.lowers_ofNaming naming h {}, fun _ => trivial⟩
      exact (ensures_of_builds ih hvalue (by simp)).mono fun _ hnode => by simpa using hnode.1

/-! ## Whole trees -/

theorem declaresOnly_fileOf (range nodes) :
    (fileOf range nodes).DeclaresOnly Q ↔ AllDeclareOnly Q nodes := by
  unfold fileOf
  split <;> simp

theorem lower_declaresOnly (naming : Naming S Q) (droppedImports) (h : root.DeclaresOnly S)
    (diagnostics) :
    (lower droppedImports root diagnostics).1.DeclaresOnly Q := by
  have hnodes := ((descend_names naming root.height).statement h
    { types := .ofTree root, droppedImports } { diagnostics } CaseTable.namesOnly_empty).2
  exact (declaresOnly_fileOf _ _).2 hnodes

/-- A bare keyword can only be an overlooked one that was a name in the source. -/
theorem naming_overlooked (sources : List String) :
    Naming (· ∈ sources) fun name => name ∈ hardKeywords →
      name ∈ overlookedKeywords ∧ ∃ source ∈ sources, Text.strip '\x60' source = name where
  own := by
    intro source hsource hkeyword
    have hbare := (identifier_mem_hardKeywords_iff source).1 hkeyword
    rw [identifier_of_mem_overlookedKeywords hbare]
    exact ⟨hbare, source, hsource, rfl⟩
  numbered source number hkeyword :=
    absurd hkeyword (identifier_numbered_not_mem_hardKeywords source number)
  anonymous index hkeyword := absurd hkeyword (anonymousName_not_mem_hardKeywords index)
  ofCase style source hkeyword := absurd hkeyword (apply_not_mem_hardKeywords style source)
  supplied := by
    have hall : ∀ name ∈ suppliedNames, name ∉ hardKeywords := by decide
    exact fun name hname hkeyword => absurd hkeyword (hall name hname)

end Lowering

namespace Conversion

open Kotlin (hardKeywords)
open Lowering (identifier inBackticks overlookedKeywords)

/-- A file with an empty class of the name. -/
def classNamed (name : String) : Dump.Node :=
  ⟨"source_file", [], [⟨"class_decl", [("name", name)], [], none⟩], none⟩

theorem declaredNames_classNamed (settings) (name : String) :
    (ofDump settings (classNamed name)).kotlin.declaredNames = [identifier name] := by
  with_unfolding_all rfl

/-- A declared name that is a bare keyword is an overlooked one, and the name of something in the
source up to its backticks. Any other keyword is written in backticks, whether it has them in the
source or not; an overlooked one loses them, and a class of its name is declared without. -/
theorem ofDump_declares_overlooked_keywords_only (settings : Settings) :
    (∀ dump, ∀ name ∈ (ofDump settings dump).kotlin.declaredNames, name ∈ hardKeywords →
      name ∈ overlookedKeywords ∧
        ∃ source ∈ (ofDump settings dump).swift.declaredNames, Text.strip '\x60' source = name) ∧
    (∀ source, Text.strip '\x60' source ∈ hardKeywords →
      identifier source = if Text.strip '\x60' source ∈ overlookedKeywords
        then Text.strip '\x60' source else inBackticks (Text.strip '\x60' source)) ∧
    ∀ source, Text.strip '\x60' source ∈ overlookedKeywords →
      Text.strip '\x60' source ∈ (ofDump settings (classNamed source)).kotlin.declaredNames := by
  refine ⟨?_, ?_, ?_⟩
  · intro dump
    rw [ofDump_eq]
    dsimp only
    generalize ((Swift.Node.ofDump dump).run []).1 = swift
    exact Lowering.lower_declaresOnly (Lowering.naming_overlooked swift.declaredNames) _
      (fun _ hname => hname) _
  · intro source hkeyword
    split
    · next hover => exact Lowering.identifier_of_mem_overlookedKeywords hover
    · next hover =>
      refine Lowering.identifier_of_mem_kotlinKeywords ?_
      by_contra hbare
      exact hover (Lowering.mem_overlookedKeywords_iff.2 ⟨hkeyword, hbare⟩)
  · intro source hover
    rw [declaredNames_classNamed, Lowering.identifier_of_mem_overlookedKeywords hover]
    exact List.mem_cons_self

/-- A function whose name is a keyword in backticks. -/
def classFunction : Dump.Node :=
  ⟨"source_file", [],
    [⟨"func_decl", [("name", "`class`")], [⟨"brace_stmt", [], [], none⟩], none⟩], none⟩

/-- The function is declared under the bare keyword, and nothing is reported. -/
theorem keyword_function_unescaped :
    "class" ∈ hardKeywords ∧ (ofDump {} classFunction).kotlin.declaredNames = ["class"] ∧
      (ofDump {} classFunction).diagnostics = [] := by
  with_unfolding_all exact ⟨by decide, rfl, rfl⟩

end Conversion

end SwiftToKotlin
