import Mathlib.Data.List.Nodup
import SwiftToKotlin.Proofs.Lowering.DeclaredForms
import SwiftToKotlin.Proofs.Lowering.Relocation

/-!
# The names of enum cases

A case gets its name where it is met first, in a declaration or in a reference, and keeps it. So at
the end there is one name for each case, and every place that wrote the case wrote this name. A
reference is taken for one to a case exactly if the enum is among the gathered declarations, which
leaves out those in bodies of functions and in protocols; any other is written as a property.
-/

namespace SwiftToKotlin

namespace Lowering

open Swift (Node TypeDecl EnumCaseDecl)
open DeclaredTypes

variable {α β : Type}

/-! ## Names that are settled -/

namespace CaseTable

/-- The name of a case that is settled in the table. -/
def naming (table : CaseTable) (enum case : String) : String :=
  (table.name? enum case).getD ""

theorem name?_name (table : CaseTable) (enum case : String) (style) :
    (table.name enum case style).2.name? enum case = some (table.name enum case style).1 := by
  unfold name
  split
  · next hname => exact hname
  · simp [name?]

end CaseTable

/-- What holds of the result of an action and of every table in which the names that it leaves are
settled. -/
def Settles (context : Context) (action : Lower α) (P : CaseTable → α → Prop) : Prop :=
  ∀ state table, ((action.run context).run state).2.cases.SettledIn table →
    P table ((action.run context).run state).1

namespace Settles

theorem pure (h : ∀ table, P table a) : Settles context (Pure.pure a) P :=
  fun _ table _ => h table

/-- The names of the first action are settled because the second one leaves them as they are. -/
theorem bind (h : Settles context action P)
    (hf : ∀ a, Settles context (f a) fun table b => P table a → Q table b)
    (hgrows : ∀ a, Keeps Grows (f a)) : Settles context (action >>= f) Q := by
  intro state table hsettled
  refine hf _ _ table hsettled (h state table fun key name hname => ?_)
  exact hsettled key name ((hgrows _ context _).2 key name hname)

theorem after (hf : ∀ a, Settles context (f a) Q) : Settles context (action >>= f) Q :=
  fun _ table hsettled => hf _ _ table hsettled

/-- An action of which the result is known beforehand. -/
theorem knowing (h : Returns context action (· = a)) (hf : Settles context (f a) Q) :
    Settles context (action >>= f) Q := by
  intro state table hsettled
  have hrun : ((action >>= f).run context).run state =
      ((f a).run context).run ((action.run context).run state).2 := by
    rw [← h state]
    rfl
  rw [hrun] at hsettled ⊢
  exact hf _ table hsettled

theorem of_returns (h : Returns context action P) :
    Settles context action fun _ => P :=
  fun state _ _ => h state

theorem mono (h : Settles context action P) (hP : ∀ table a, P table a → P' table a) :
    Settles context action P' :=
  fun state table hsettled => hP table _ (h state table hsettled)

theorem surrounded (h : Settles context action P) :
    Settles context (surrounded change action) P :=
  fun _ table hsettled => h _ table hsettled

theorem mapM {R : CaseTable → α → β → Prop} (items : List α)
    (h : ∀ a ∈ items, Settles context (f a) fun table => R table a)
    (hgrows : ∀ a, Keeps Grows (f a)) :
    Settles context (items.mapM f) fun table => List.Forall₂ (R table) items := by
  induction items with
  | nil => exact .pure fun _ => .nil
  | cons item rest ih =>
    rw [List.mapM_cons]
    have hrest := ih fun a ha => h a (List.mem_cons_of_mem _ ha)
    refine (h item List.mem_cons_self).bind (fun first => ?_) fun _ =>
      (Keeps.mapM rest hgrows).bind fun _ => .pure _
    exact hrest.bind (fun others => .pure fun _ hothers hfirst => .cons hfirst hothers)
      fun _ => .pure _

end Settles

theorem nameCase_settles (context) (enum case : String) (style) :
    Settles context (nameCase enum case style) fun table name => name = table.naming enum case := by
  intro state table hsettled
  have hname := hsettled _ _ (CaseTable.name?_name state.cases enum case style)
  exact (congrArg (Option.getD · "") hname).symm

theorem caseName_settles (context) (enum case : String) :
    Settles context (caseName enum case) fun table name => name = table.naming enum case :=
  .after fun _ => nameCase_settles context enum case _

/-! ## Declarations of cases -/

/-- The class for a case has the name. -/
def IsClassNamed (name : String) (node : Kotlin.Node) : Prop :=
  ∃ made, node.construct = .classDef made ∧ made.name = name

/-- The class of an enum has its cases under their names: as entries, or as classes of their own. -/
inductive NamesCases (naming : String → String) (decl : TypeDecl Node)
    (made : Kotlin.ClassDef Kotlin.Node) : Prop
  | entries (hkind : made.kind = .enumeration)
      (h : made.entries.map Kotlin.EnumEntry.name = (casesOf decl).map fun case => naming case.name)
  | classes (hkind : made.kind = .sealed)
      (hmembers : made.members = classes ++ rest)
      (h : List.Forall₂ (fun case => IsClassNamed (naming case.name)) (casesOf decl) classes)

namespace Enum

variable {descent : Descent} (below : descent.Growing) (context : Context)

include below

variable (range : Option SourceRange)

theorem entries_settles (enum : String) (rawType next cases) :
    Settles context (entries descent enum rawType next cases) fun table made =>
      made.map Kotlin.EnumEntry.name = cases.map fun placed => table.naming enum placed.1.name := by
  induction cases generalizing next with
  | nil => exact .pure fun _ => rfl
  | cons case rest ih =>
    obtain ⟨case, range⟩ := case
    refine (nameCase_settles context enum case.name .upperSnake).bind (fun name => ?_)
      fun name => ?_
    · have hrest (value : List Kotlin.Node × Option Int) :
          Settles context
            (do return ⟨name, value.1⟩ :: (← entries descent enum rawType value.2 rest))
            fun table made => name = table.naming enum case.name →
              made.map Kotlin.EnumEntry.name =
                ((case, range) :: rest).map fun placed => table.naming enum placed.1.name :=
        (ih value.2).bind (fun others => .pure fun table hothers hname => by
          rw [List.map_cons, List.map_cons, hothers, ← hname]) fun _ => .pure _
      cases rawType with
      | none => exact .after hrest
      | some rawType => exact .after hrest
    · have hrest (value : List Kotlin.Node × Option Int) : Keeps Grows
          (do return ⟨name, value.1⟩ :: (← entries descent enum rawType value.2 rest)) :=
        (keeps_entries below enum rawType value.2 rest).bind fun _ => .pure _
      cases rawType with
      | none => exact .bind (.pure _) hrest
      | some rawType => exact (keeps_rawValue below rawType next case range).bind hrest

theorem enumClass_settles (decl : TypeDecl Node) :
    Settles context (enumClass descent decl range) fun table node =>
      ∃ made, node = ⟨.classDef made, range⟩ ∧ made.name = identifier decl.name ∧
        NamesCases (table.naming decl.name) decl made := by
  refine (entries_settles below context _ _ _ _).bind (fun entries => ?_) fun _ =>
    (TypeBody.keeps_members below rfl _).bind fun _ => keeps_types.bind fun _ => .pure _
  refine .after fun members => .after fun types => .pure fun table hentries => ?_
  refine ⟨_, rfl, by dsimp only, .entries rfl ?_⟩
  rw [hentries, ← map_fst_placedCases, List.map_map]
  rfl

omit below in
theorem caseClass_settles (enum : String) (case) :
    Settles context (caseClass enum case range) fun table =>
      IsClassNamed (table.naming enum case.name) := by
  refine (nameCase_settles context enum case.name .upperCamel).bind (fun name => ?_) fun _ =>
    (Keeps.mapM _ fun _ => (growth.lowerTy _ _).bind fun _ => .pure _).bind fun _ => .pure _
  exact .after fun params => .pure fun table hname => ⟨_, rfl, hname⟩

theorem sealedClass_settles (decl : TypeDecl Node) :
    Settles context (sealedClass descent decl range) fun table node =>
      ∃ made, node = ⟨.classDef made, range⟩ ∧ made.name = identifier decl.name ∧
        NamesCases (table.naming decl.name) decl made := by
  have hcase (placed : EnumCaseDecl Node × Option SourceRange) :
      Settles context (caseClass decl.name placed.1 placed.2) fun table =>
        IsClassNamed (table.naming decl.name placed.1.name) :=
    caseClass_settles context placed.2 decl.name placed.1
  have hgrows (placed : EnumCaseDecl Node × Option SourceRange) :
      Keeps Grows (caseClass decl.name placed.1 placed.2) :=
    keeps_caseClass below decl.name placed.1 placed.2
  refine (Settles.mapM (placedCases decl.members) (fun placed _ => hcase placed) hgrows).bind
    (fun classes => ?_) fun _ =>
      (TypeBody.keeps_members below rfl _).bind fun _ => keeps_types.bind fun _ => .pure _
  refine .after fun members => .after fun types => .pure fun table hclasses => ?_
  refine ⟨_, rfl, by dsimp only, .classes rfl rfl ?_⟩
  rw [← map_fst_placedCases]
  exact List.forall₂_map_left_iff.2 hclasses

/-- Whatever its form, the class of an enum has the cases under the names that are settled. -/
theorem enumDecl_settles (decl : TypeDecl Node) :
    Settles context (enumDecl descent decl range) fun table node =>
      ∃ made, node = ⟨.classDef made, range⟩ ∧ made.name = identifier decl.name ∧
        NamesCases (table.naming decl.name) decl made := by
  refine .after fun types => ?_
  cases enumForm ((types.enum? decl.name).getD decl) with
  | enumClass => exact enumClass_settles below context range decl
  | sealedClass => exact sealedClass_settles below context range decl

end Enum

/-! ## References to cases -/

/-- The node is `owner.name`, or a call of it. -/
inductive RefersTo (owner name : String) : Node → Prop
  | alone {base node : Node} {ty : Option Swift.Ty} (hnode : node.construct = .member base name)
      (hbase : base.construct = .reference owner ty) : RefersTo owner name node
  | called (hnode : node.construct = .call callee arguments) (h : RefersTo owner name callee) :
      RefersTo owner name node

/-- The node is the case of the enum that is written under the name, or a call of it. -/
inductive WritesCase (enum written : String) : Kotlin.Node → Prop
  | alone (range : Option SourceRange) :
      WritesCase enum written (.member (.reference (identifier enum) range) written range)
  | called (h : WritesCase enum written callee)
      (arguments : List (Kotlin.Argument Kotlin.Node)) (trailing : Option Kotlin.Node)
      (range : Option SourceRange) :
      WritesCase enum written ⟨.call callee arguments trailing, range⟩

theorem caseReference_settles (context) (enum case : String) (range) :
    Settles context (caseReference enum case range) fun table =>
      WritesCase enum (table.naming enum case) :=
  (caseName_settles context enum case).bind
    (fun _ => .pure fun _ hname => hname ▸ .alone range) fun _ => .pure _

section References

/-- Calls and members are patterns for a case exactly if the enum has one of the name. -/
theorem RefersTo.casePattern?_eq (h : RefersTo owner name node) (types : DeclaredTypes) (around) :
    casePattern? types around node =
      if types.hasCase (types.resolve owner) name then some (types.resolve owner, name)
      else none := by
  induction h with
  | @alone base node _ hnode hbase =>
    obtain ⟨construct, range⟩ := node
    obtain ⟨inner, place⟩ := base
    subst hnode hbase
    rw [casePattern?]
  | @called callee node _ hnode _ ih =>
    obtain ⟨construct, range⟩ := node
    subst hnode
    rw [casePattern?, ih]

theorem RefersTo.casePattern_returns (h : RefersTo owner name node)
    (hcase : context.types.hasCase (context.types.resolve owner) name = true) :
    Returns context (casePattern node) (· = some (context.types.resolve owner, name)) :=
  fun state => (h.casePattern?_eq context.types state.surroundings).trans (if_pos hcase)

theorem Call.withArguments_returns (descent callee arguments names range) :
    Returns context (withArguments descent callee arguments names range) fun made =>
      ∃ args trailing, made = ⟨.call callee args trailing, range⟩ := by
  unfold withArguments
  dsimp only
  split
  · split
    · exact .after fun _ => .after fun _ => .pure ⟨_, _, rfl⟩
    · exact .after fun _ => .pure ⟨_, _, rfl⟩
  · exact .pure ⟨_, _, rfl⟩

/-- A call of a callee that is a case is one as well. -/
theorem Call.settles_of_callee (below : descent.Growing) (arguments names range)
    (h : Settles context action fun table => WritesCase enum (table.naming enum case)) :
    Settles context (do withArguments descent (← action) arguments names range) fun table =>
      WritesCase enum (table.naming enum case) := by
  refine h.bind (fun callee => ?_) fun _ => keeps_withArguments below _ _ _ _
  refine (Settles.of_returns (withArguments_returns descent callee arguments names range)).mono ?_
  rintro table _ ⟨args, trailing, rfl⟩ hcallee
  exact .called hcallee args trailing range

/-- A reference to a case, alone or called, is written under the name that is settled. -/
theorem RefersTo.value_settles (h : RefersTo owner name node)
    (hcase : context.types.hasCase (context.types.resolve owner) name = true)
    (hheight : node.height ≤ height) :
    Settles context ((descend height).value node) fun table =>
      WritesCase (context.types.resolve owner)
        (table.naming (context.types.resolve owner) name) := by
  induction h generalizing height with
  | @alone base node _ hnode hbase =>
    obtain ⟨below, rfl⟩ := Nat.exists_eq_add_one.2 (Nat.lt_of_lt_of_le node.height_pos hheight)
    change Settles context (Expression.lower (descend below) node) _
    simp only [Expression.lower, hnode]
    refine .knowing (Returns.types context) ?_
    simp only [Expression.namedEnum?, hbase, hcase]
    exact caseReference_settles context _ name _
  | @called callee node arguments hnode h ih =>
    obtain ⟨below, rfl⟩ := Nat.exists_eq_add_one.2 (Nat.lt_of_lt_of_le node.height_pos hheight)
    have hlt : callee.height < node.height :=
      Node.height_lt_of_part (by simp [hnode, Swift.Construct.parts])
    change Settles context (Expression.lower (descend below) node) _
    simp only [Expression.lower, hnode]
    have hgrowing := descend_follows growth below
    cases h with
    | alone hcallee hbase =>
      simp only [Call.lower, hcallee]
      refine .knowing (RefersTo.casePattern_returns (.alone hcallee hbase) hcase) ?_
      exact .after fun types => Call.settles_of_callee hgrowing arguments _ _
        (caseReference_settles context _ name _)
    | called hcallee _ =>
      simp only [Call.lower, hcallee]
      exact Call.settles_of_callee hgrowing arguments none _ (ih (by omega))

/-- Any other member of a name is a property. -/
theorem Expression.member_returns (descent) (hbase : base.construct = .reference owner ty)
    (hcase : context.types.hasCase (context.types.resolve owner) name = false) (range) :
    Returns context (member descent base name range) fun made =>
      ∃ receiver type, made = property receiver type name false range := by
  have htarget : chainTarget base = (base, false) := by simp only [chainTarget, hbase]
  refine (Returns.types context).bind fun types htypes => ?_
  simp only [namedEnum?, hbase, htypes, hcase, Bool.false_eq_true, htarget]
  exact .after fun _ => .after fun _ => .pure ⟨_, _, rfl⟩

end References

/-! ## Patterns for cases -/

/-- The condition tests for the case of the enum that is written under the name, by its type or by
its value. -/
inductive TestsCase (enum written : String) : Kotlin.WhenCondition Kotlin.Node → Prop
  | type : TestsCase enum written (.is (.named s!"{identifier enum}.{written}" []))
  | value (h : WritesCase enum written node) :
      TestsCase enum written (.value node)

/-- If the pattern refers to a case, then the condition tests for it under its name. -/
def TestsPattern (types : DeclaredTypes) (naming : String → String → String) (pattern : Node)
    (condition : Kotlin.WhenCondition Kotlin.Node) : Prop :=
  ∀ owner name, RefersTo owner name pattern →
    types.hasCase (types.resolve owner) name = true →
      TestsCase (types.resolve owner) (naming (types.resolve owner) name) condition

namespace Statement

theorem whenCondition_settles (hheight : pattern.height ≤ height) :
    Settles context (whenCondition (descend height) pattern) fun table =>
      TestsPattern context.types table.naming pattern := by
  intro state table hsettled owner name h hcase
  suffices hsuffices : Settles context (whenCondition (descend height) pattern) fun table =>
      TestsCase (context.types.resolve owner)
        (table.naming (context.types.resolve owner) name) from
    hsuffices state table hsettled
  unfold whenCondition
  split
  · next hc =>
    cases h with
    | alone hnode => cases hc.symm.trans hnode
    | called hnode => cases hc.symm.trans hnode
  · refine .knowing (h.casePattern_returns hcase) (.after fun types => ?_)
    split
    · exact (caseName_settles context _ name).bind
        (fun _ => .pure fun _ hname => hname ▸ .type) fun _ => .pure _
    · exact (h.value_settles hcase hheight).bind (fun _ => .pure fun _ hmade => .value hmade)
        fun _ => .pure _

/-- The condition for each pattern that refers to a case tests for it under its name. -/
theorem switchStmt_settles (range)
    (hheight : ∀ case ∈ cases, ∀ pattern ∈ case.patterns, pattern.height ≤ height) :
    Settles context (switchStmt (descend height) subject cases range) fun table node =>
      ∃ made branches, node = ⟨.whenStmt (some made) branches, range⟩ ∧
        List.Forall₂ (fun case branch =>
          List.Forall₂ (TestsPattern context.types table.naming) case.patterns branch.conditions)
          cases branches := by
  have hgrowing := descend_follows growth height
  have hbranch (case : Swift.SwitchCase Node) (hcase : case ∈ cases) :
      Settles context (whenBranch (descend height) case) fun table branch =>
        List.Forall₂ (TestsPattern context.types table.naming) case.patterns
          branch.conditions := by
    refine (Settles.mapM case.patterns
      (fun pattern hpattern => whenCondition_settles (hheight case hcase pattern hpattern))
      (keeps_whenCondition hgrowing)).bind (fun conditions => ?_) fun _ =>
        (growth.withinCase true (keeps_statements hgrowing _)).bind fun _ => .pure _
    exact .after fun body => .pure fun table hconditions => hconditions
  refine .after fun enum => .after fun made => ?_
  refine (Settles.surrounded (Settles.mapM cases hbranch (keeps_whenBranch hgrowing))).bind
    (fun branches => ?_) fun _ => .pure _
  exact .pure fun table hbranches => ⟨made, branches, rfl, hbranches⟩

end Statement

/-! ## The enums that have cases -/

/-- The parts of a construct whose declarations are gathered. -/
def searched : Swift.Construct Node → List Node
  | .file items => items
  | .typeDecl .protocolType _ => []
  | .typeDecl _ decl => decl.members
  | .extensionDecl _ members => members
  | .unknown _ children => children
  | _ => []

/-- The declarations in the node are gathered from the tree: it is not in the body of a function,
nor in a protocol. -/
inductive Gathered (node : Node) : Node → Prop
  | here : Gathered node node
  | part (hpart : part ∈ searched whole.construct) (h : Gathered node part) :
      Gathered node whole

theorem mem_parts_of_mem_searched (h : part ∈ searched construct) : part ∈ construct.parts := by
  cases construct with
  | file | extensionDecl | unknown => exact h
  | typeDecl kind decl =>
    cases kind with
    | protocolType => cases h
    | _ => exact h
  | _ => cases h

/-- The types that are gathered are those that are declared where declarations are gathered. -/
theorem type_mem_declarations_iff (root : Node) :
    .type kind decl ∈ declarations root ↔ ∃ range, Gathered ⟨.typeDecl kind decl, range⟩ root := by
  have hlayer (construct : Swift.Construct Node) (range : Option SourceRange) :
      .type kind decl ∈ declarations ⟨construct, range⟩ ↔ construct = .typeDecl kind decl ∨
        ∃ part ∈ searched construct, .type kind decl ∈ declarations part := by
    cases construct with
    | typeDecl found other =>
      cases found <;> simp [declarations, searched, allDeclarations_eq_flatMap, eq_comm]
    | _ => simp [declarations, searched, allDeclarations_eq_flatMap]
  induction root using Node.induction with
  | step construct range ih =>
    rw [hlayer]
    constructor
    · rintro (rfl | ⟨part, hpart, hmem⟩)
      · exact ⟨range, .here⟩
      · obtain ⟨place, h⟩ := (ih part (mem_parts_of_mem_searched hpart)).1 hmem
        exact ⟨place, .part hpart h⟩
    · rintro ⟨place, h⟩
      cases h with
      | here => exact .inl rfl
      | part hpart h => exact .inr ⟨_, hpart, (ih _ (mem_parts_of_mem_searched hpart)).2 ⟨place, h⟩⟩

namespace DeclaredTypes

theorem mem_ofKind_iff {types : DeclaredTypes} :
    decl ∈ types.ofKind kind ↔ .type kind decl ∈ types.declarations := by
  simp only [ofKind, List.mem_filterMap]
  constructor
  · rintro ⟨declaration, hmem, heq⟩
    rcases declaration with ⟨found, other⟩ | ⟨name, ty⟩
    · obtain ⟨rfl, rfl⟩ : found = kind ∧ other = decl := by simpa using heq
      exact hmem
    · cases heq
  · exact fun hmem => ⟨_, hmem, if_pos rfl⟩

/-- A name that is no alias of another stands for itself. -/
theorem resolve_eq_self {types : DeclaredTypes} (h : types.aliased? name = none) :
    types.resolve name = name := by
  simp only [resolve, follow, h]

/-- If no two enums have the same name, then an enum has the cases that are declared in it. -/
theorem hasCase_iff {types : DeclaredTypes}
    (hdistinct : ((types.ofKind .enumType).map TypeDecl.name).Nodup) (enum name : String) :
    types.hasCase enum name = true ↔ ∃ decl ∈ types.ofKind .enumType,
      decl.name = enum ∧ ∃ case ∈ casesOf decl, case.name = name := by
  have hown (decl : TypeDecl Node) :
      (caseOf? decl name).isSome = true ↔ ∃ case ∈ casesOf decl, case.name = name := by
    simp [caseOf?]
  rw [hasCase, case?, enum?, find?]
  constructor
  · intro h
    cases hfirst : (types.ofKind .enumType).find? (·.name == enum) with
    | none => simp [hfirst] at h
    | some decl =>
      rw [hfirst] at h
      exact ⟨decl, List.mem_of_find?_eq_some hfirst, by simpa using List.find?_some hfirst,
        (hown decl).1 h⟩
  · rintro ⟨decl, hdecl, rfl, hcase⟩
    cases hfirst : (types.ofKind .enumType).find? (·.name == decl.name) with
    | none => exact absurd (List.find?_eq_none.1 hfirst decl hdecl) (by simp)
    | some first =>
      have hname : first.name = decl.name := by simpa using List.find?_some hfirst
      have hsame :=
        List.inj_on_of_nodup_map hdistinct (List.mem_of_find?_eq_some hfirst) hdecl hname
      rw [hsame]
      exact (hown decl).2 hcase

end DeclaredTypes

/-! ## Visits -/

section Visits

/-- Members and calls become the same as a statement and as a value. -/
theorem RefersTo.outcome_eq (h : RefersTo owner name visit.node) :
    (descend (height + 1)).outcome context visit =
      ([((((descend (height + 1)).value visit.node).run context).run visit.state).1],
        ((((descend (height + 1)).value visit.node).run context).run visit.state).2) := by
  cases hrole : visit.role with
  | statement =>
    refine outcome_of_one hrole ?_
    cases h with
    | alone hnode =>
      simp only [lowerStatement, hnode]
      rfl
    | called hnode =>
      simp only [lowerStatement, hnode]
      rfl
  | value => simp only [Descent.outcome, hrole]

end Visits

end Lowering

/-! ## Conversion -/

namespace Conversion

open Lowering DeclaredTypes

/-- The cases that have names at the end of a conversion. -/
def namedCases (settings : Settings) (dump : Dump.Node) : CaseTable :=
  Lowering.namedCases settings.droppedImports (ofDump settings dump).swift
    ((Swift.Node.ofDump dump).run []).2

namespace Reaches

variable (h : Reaches settings dump height place visit)

include h

/-- What a visit makes in one action is written with the names of the end. -/
theorem becomes_settled
    (hanswer : (descend height).outcome (context settings dump) visit =
      ([((action.run (context settings dump)).run visit.state).1],
        ((action.run (context settings dump)).run visit.state).2))
    (hsettles : Settles (context settings dump) action P) :
    ∃ node, Becomes settings dump height visit node ∧ P (namedCases settings dump) node := by
  have hsettled : ((descend height).outcome (context settings dump) visit).2.cases.SettledIn
      (namedCases settings dump) :=
    h.settled
  rw [hanswer] at hsettled
  exact ⟨_, h.becomes (congrArg Prod.fst hanswer), hsettles visit.state _ hsettled⟩

theorem becomes_namedEnum (hc : visit.node.construct = .typeDecl .enumType decl) :
    ∃ made, Becomes settings dump height visit ⟨.classDef made, visit.node.range⟩ ∧
      made.name = identifier decl.name ∧
        NamesCases ((namedCases settings dump).naming decl.name) decl made := by
  have hrole := h.role_eq_statement hc
  obtain ⟨below, rfl⟩ := h.exists_succ
  have hanswer : lowerStatement (descend below) visit.node =
      do return [← Enum.enumDecl (descend below) decl visit.node.range] := by
    simp only [lowerStatement, hc]
    rfl
  obtain ⟨_, hbecomes, made, rfl, hmade⟩ := h.becomes_settled (outcome_of_one hrole hanswer)
    (Enum.enumDecl_settles (descend_follows growth below) _ visit.node.range decl)
  exact ⟨made, hbecomes, hmade⟩

theorem becomes_case (hrefers : RefersTo owner name visit.node)
    (hcase : (context settings dump).types.hasCase
      ((context settings dump).types.resolve owner) name = true) :
    ∃ made, Becomes settings dump height visit made ∧
      WritesCase ((context settings dump).types.resolve owner)
        ((namedCases settings dump).naming ((context settings dump).types.resolve owner) name)
        made := by
  have hheight := h.height_le
  obtain ⟨below, rfl⟩ := h.exists_succ
  have hsettles := hrefers.value_settles hcase hheight
  exact h.becomes_settled hrefers.outcome_eq hsettles

theorem becomes_member (hc : visit.node.construct = .member base name)
    (hbase : base.construct = .reference owner ty)
    (hcase : (context settings dump).types.hasCase
      ((context settings dump).types.resolve owner) name = false) :
    ∃ receiver type, Becomes settings dump height visit
      (Expression.property receiver type name false visit.node.range) := by
  obtain ⟨below, rfl⟩ := h.exists_succ
  have hreturns := Expression.member_returns (descend below) hbase hcase visit.node.range
  have hvalue : (descend (below + 1)).value visit.node =
      Expression.member (descend below) base name visit.node.range := by
    change Expression.lower (descend below) visit.node = _
    simp only [Expression.lower, hc]
  rw [← hvalue] at hreturns
  have hrefers : RefersTo owner name visit.node := .alone hc hbase
  obtain ⟨_, hbecomes, receiver, type, rfl⟩ :=
    h.becomes_settled hrefers.outcome_eq (.of_returns hreturns)
  exact ⟨receiver, type, hbecomes⟩

theorem becomes_switch (hc : visit.node.construct = .switchStmt subject cases) :
    ∃ made branches, Becomes settings dump height visit
        ⟨.whenStmt (some made) branches, visit.node.range⟩ ∧
      List.Forall₂ (fun case branch => List.Forall₂
        (TestsPattern (context settings dump).types (namedCases settings dump).naming)
        case.patterns branch.conditions) cases branches := by
  have hrole := h.role_eq_statement hc
  have hheight := h.height_le
  obtain ⟨below, rfl⟩ := h.exists_succ
  have hanswer : lowerStatement (descend below) visit.node =
      do return [← Statement.switchStmt (descend below) subject cases visit.node.range] := by
    simp only [lowerStatement, hc]
  have hpatterns (case : Swift.SwitchCase Swift.Node) (hcase : case ∈ cases)
      (pattern : Swift.Node) (hpattern : pattern ∈ case.patterns) : pattern.height ≤ below := by
    have hpart : pattern ∈ visit.node.construct.parts := by
      rw [hc]
      exact List.mem_cons_of_mem _ (List.mem_flatMap_of_mem hcase (List.mem_append_left _ hpattern))
    have hlt := Swift.Node.height_lt_of_part hpart
    omega
  obtain ⟨_, hbecomes, made, branches, rfl, hbranches⟩ :=
    h.becomes_settled (outcome_of_one hrole hanswer)
      (Statement.switchStmt_settles visit.node.range hpatterns)
  exact ⟨made, branches, hbecomes, hbranches⟩

end Reaches

/-- There is one name for each case. An enum that is reached becomes a class with its cases under
these names, and what refers to a case of a gathered enum, alone, called or as a pattern, is written
with them; any other member of a name becomes a property. Unless it is an alias, the name before the
member stands for itself, and if no two gathered enums have the same name, then an enum has exactly
the cases that are declared in it outside of functions and protocols. -/
theorem ofDump_names_cases_of_gathered_enums (settings : Settings) (dump : Dump.Node) :
    let root := (ofDump settings dump).swift
    let types := ofTree root
    (∃ naming : String → String → String,
      (∀ height place visit decl, Reaches settings dump height place visit →
        visit.node.construct = .typeDecl .enumType decl →
        ∃ made, Becomes settings dump height visit ⟨.classDef made, visit.node.range⟩ ∧
          made.name = identifier decl.name ∧ NamesCases (naming decl.name) decl made) ∧
      (∀ height place visit owner name, Reaches settings dump height place visit →
        RefersTo owner name visit.node → types.hasCase (types.resolve owner) name = true →
        ∃ made, Becomes settings dump height visit made ∧
          WritesCase (types.resolve owner) (naming (types.resolve owner) name) made) ∧
      ∀ height place visit subject cases, Reaches settings dump height place visit →
        visit.node.construct = .switchStmt subject cases →
        ∃ made branches, Becomes settings dump height visit
            ⟨.whenStmt (some made) branches, visit.node.range⟩ ∧
          List.Forall₂ (fun case branch =>
            List.Forall₂ (TestsPattern types naming) case.patterns branch.conditions)
            cases branches) ∧
    (∀ height place visit base owner ty name, Reaches settings dump height place visit →
      visit.node.construct = .member base name → base.construct = .reference owner ty →
      types.hasCase (types.resolve owner) name = false →
      ∃ receiver type, Becomes settings dump height visit
        (Expression.property receiver type name false visit.node.range)) ∧
    (∀ owner, types.aliased? owner = none → types.resolve owner = owner) ∧
    (((types.ofKind .enumType).map Swift.TypeDecl.name).Nodup →
      ∀ enum name, types.hasCase enum name = true ↔
        ∃ decl range, Gathered ⟨.typeDecl .enumType decl, range⟩ root ∧ decl.name = enum ∧
          ∃ case ∈ casesOf decl, case.name = name) := by
  intro root types
  refine ⟨⟨(namedCases settings dump).naming, ?_, ?_, ?_⟩, ?_, fun _ => resolve_eq_self, ?_⟩
  · exact fun _ _ _ _ h hc => h.becomes_namedEnum hc
  · exact fun _ _ _ _ _ h hrefers hcase => h.becomes_case hrefers hcase
  · exact fun _ _ _ _ _ h hc => h.becomes_switch hc
  · exact fun _ _ _ _ _ _ _ h hc hbase hcase => h.becomes_member hc hbase hcase
  · intro hdistinct enum name
    rw [hasCase_iff hdistinct]
    constructor
    · rintro ⟨decl, hdecl, hcase⟩
      obtain ⟨range, hgathered⟩ := (type_mem_declarations_iff root).1 (mem_ofKind_iff.1 hdecl)
      exact ⟨decl, range, hgathered, hcase⟩
    · rintro ⟨decl, range, hgathered, hcase⟩
      have hdecl := mem_ofKind_iff.2 ((type_mem_declarations_iff root).2 ⟨range, hgathered⟩)
      exact ⟨decl, hdecl, hcase⟩

/-- A function with an enum in its body, and a reference to the case of this enum. -/
def localEnum : Dump.Node :=
  ⟨"source_file", [],
    [⟨"func_decl", [("name", "f")],
      [⟨"brace_stmt", [],
        [⟨"enum_decl", [("name", "E")], [⟨"enum_element_decl", [("name", "one")], [], none⟩], none⟩,
          ⟨"var_decl", [("name", "x"), ("let", "")],
            [⟨"member_ref_expr", [("name", "one")],
              [⟨"declref_expr", [("name", "E")], [], none⟩], none⟩], none⟩], none⟩], none⟩], none⟩

/-- The entry is `ONE`, but the reference to it stays `E.one`. -/
theorem local_case_missed :
    (ofDump {} localEnum).kotlin =
        ⟨.file [⟨.function
          { name := "f", receiver := none, params := [], returnType := none, modifiers := []
            body := some
              [⟨.classDef { name := "E", kind := .enumeration, entries := [⟨"ONE", []⟩] }, none⟩,
                ⟨.property
                  { name := "x", binding := .val
                    init := some (.member (.reference "E" none) "one" none) }, none⟩] },
          none⟩], none⟩ ∧
      (ofDump {} localEnum).diagnostics = [] := by
  with_unfolding_all exact ⟨rfl, rfl⟩

end Conversion

end SwiftToKotlin
