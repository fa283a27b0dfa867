import SwiftToKotlin.Proofs.Lowering.Refusals

/-!
# The forms of structs and enums

Whether a struct becomes a data class and whether an enum becomes an enumeration is decided by the
first declaration of its name that is gathered from the file. The class for a declaration has the
form of that first one and the contents of its own: so a later declaration of the same name gets the
form that fits it exactly if the first one needs the same form.
-/

namespace SwiftToKotlin

namespace Lowering

open Swift (Node TypeDecl EnumCaseDecl)
open DeclaredTypes

variable {α β : Type}

/-! ## Results of actions -/

/-- What holds of the result of an action in every state. -/
def Returns (context : Context) (action : Lower α) (P : α → Prop) : Prop :=
  ∀ state, P ((action.run context).run state).1

namespace Returns

theorem pure (h : P a) : Returns context (Pure.pure a) P :=
  fun _ => h

theorem bind (h : Returns context action P) (hf : ∀ a, P a → Returns context (f a) Q) :
    Returns context (action >>= f) Q :=
  fun state => hf _ (h state) _

theorem after (hf : ∀ a, Returns context (f a) Q) : Returns context (action >>= f) Q :=
  fun _ => hf _ _

theorem surrounded (h : Returns context action P) : Returns context (surrounded change action) P :=
  fun _ => h _

theorem inBlock (h : Returns context action P) : Returns context (inBlock action) P :=
  fun _ => h _

theorem mapM (h : ∀ a, Returns context (f a) (R a)) (items : List α) :
    Returns context (items.mapM f) (List.Forall₂ R items) := by
  induction items with
  | nil => exact .pure .nil
  | cons item rest ih =>
    rw [List.mapM_cons]
    exact (h item).bind fun _ hfirst => ih.bind fun _ hrest => .pure (.cons hfirst hrest)

theorem types (context) : Returns context types (· = context.types) :=
  fun _ => rfl

end Returns

/-! ## Structs -/

/-- Whether a constructor parameter is the one for a stored property. -/
structure IsParameterFor (property : Swift.VariableDecl Node) (param : Kotlin.Param Kotlin.Node) :
    Prop where
  name_eq : param.name = identifier property.name
  binding_eq : param.binding = some (Function.binding property.isLet)
  hasDefault : param.defaultValue.isSome = property.init.isSome

/-- What a struct is made into: a data class with a parameter for each stored property, or a class
without parameters. -/
structure IsStructClass (form : StructForm) (decl : TypeDecl Node)
    (made : Kotlin.ClassDef Kotlin.Node) : Prop where
  name_eq : made.name = identifier decl.name
  kind_eq : made.kind = if form = .dataClass then .data else .plain
  params : List.Forall₂ IsParameterFor (if form = .dataClass then storedProperties decl else [])
    made.params

/-- The class that an action makes. -/
def MakesClass (context : Context) (action : Lower Kotlin.Node) (range : Option SourceRange)
    (P : Kotlin.ClassDef Kotlin.Node → Prop) : Prop :=
  Returns context action fun node => ∃ made, node = ⟨.classDef made, range⟩ ∧ P made

namespace TypeBody

variable (descent : Descent) (context : Context)

variable (decl : TypeDecl Node) (range : Option SourceRange)

theorem constructorProperty_returns (property range) :
    Returns context (constructorProperty descent property range) (IsParameterFor property) := by
  have hdefault : Returns context (Swift.optionM descent.kept property.init) fun value =>
      value.isSome = property.init.isSome := by
    cases property.init with
    | none => exact .pure rfl
    | some value => exact .after fun _ => .pure rfl
  -- the projection is reduced first: unification would unfold `identifier` instead
  exact .after fun _ => .after fun _ => .after fun _ => hdefault.bind fun _ h =>
    .pure { name_eq := by dsimp only, binding_eq := by dsimp only, hasDefault := h }

variable {descent context} in
/-- There is a parameter for each stored property, with what holds of one of them. -/
theorem constructorProperties_returns
    (h : ∀ property range,
      Returns context (constructorProperty descent property range) (R property)) (name : String)
    (inherits : List String) (members : List Node) :
    Returns context (constructorProperties descent (members.filter isStoredProperty))
      (List.Forall₂ R (storedProperties ⟨name, inherits, members⟩)) := by
  induction members with
  | nil => exact .pure .nil
  | cons member rest ih =>
    obtain ⟨construct, range⟩ := member
    cases construct with
    | variableDecl property =>
      by_cases hstored : (property.isStored && !property.isStatic) = true
      · have hproperties : storedProperties
            ⟨name, inherits, ⟨.variableDecl property, range⟩ :: rest⟩ =
              property :: storedProperties ⟨name, inherits, rest⟩ :=
          List.filterMap_cons_some (if_pos hstored)
        have hnodes : List.filter isStoredProperty (⟨.variableDecl property, range⟩ :: rest) =
            ⟨.variableDecl property, range⟩ :: rest.filter isStoredProperty :=
          List.filter_cons_of_pos hstored
        rw [hproperties, hnodes]
        exact (h property range).bind fun _ hfirst =>
          ih.bind fun _ hrest => .pure (.cons hfirst hrest)
      · have hproperties : storedProperties
            ⟨name, inherits, ⟨.variableDecl property, range⟩ :: rest⟩ =
              storedProperties ⟨name, inherits, rest⟩ :=
          List.filterMap_cons_none (if_neg hstored)
        have hnodes : List.filter isStoredProperty (⟨.variableDecl property, range⟩ :: rest) =
            rest.filter isStoredProperty :=
          List.filter_cons_of_neg hstored
        rw [hproperties, hnodes]
        exact ih
    | _ => exact ih

theorem dataClass_makes :
    MakesClass context (dataClass descent decl range) range (IsStructClass .dataClass decl) := by
  have hparams := constructorProperties_returns (constructorProperty_returns descent context)
    decl.name decl.inherits decl.members
  unfold dataClass
  rw [List.partition_eq_filter_filter]
  refine .bind (P := fun made => List.Forall₂ IsParameterFor (storedProperties decl) made.1) ?_ ?_
  · exact .inBlock (hparams.surrounded.bind fun _ h => .after fun _ => .pure h)
  · intro made h
    exact .after fun _ => .pure ⟨_, rfl, by dsimp only, rfl, h⟩

theorem classWithEquality_makes :
    MakesClass context (classWithEquality descent decl range) range
      (IsStructClass .classWithEquality decl) := by
  exact .after fun _ => .after fun _ => .after fun _ => .pure ⟨_, rfl, by dsimp only, rfl, .nil⟩

theorem structDecl_makes :
    MakesClass context (structDecl descent decl range) range
      (IsStructClass (structForm ((context.types.struct? decl.name).getD decl)) decl) := by
  refine (Returns.types context).bind fun types htypes => ?_
  rw [htypes]
  cases structForm ((context.types.struct? decl.name).getD decl) with
  | dataClass => exact dataClass_makes descent context decl range
  | classWithEquality => exact classWithEquality_makes descent context decl range

end TypeBody

/-! ## Enums -/

/-- Whether a constructor parameter is the one for an associated value. -/
structure IsFieldFor (value : Swift.Param Node) (param : Kotlin.Param Kotlin.Node) : Prop where
  name_eq : param.name = identifier (value.label.getD value.name)
  binding_eq : param.binding = some .val

/-- Whether a node is the class for a case of a sealed class: an object, or a data class with a
parameter for each associated value. -/
def IsCaseClass (case : EnumCaseDecl Node) (node : Kotlin.Node) : Prop :=
  ∃ made, node.construct = .classDef made ∧
    made.kind = (if case.params.isEmpty then .object else .data) ∧
    List.Forall₂ IsFieldFor case.params made.params

/-- What an enum is made into: an enumeration with an entry for each case, or a sealed class with a
class for each case. -/
structure IsEnumClass (form : EnumForm) (decl : TypeDecl Node)
    (made : Kotlin.ClassDef Kotlin.Node) : Prop where
  name_eq : made.name = identifier decl.name
  kind_eq : made.kind = if form = .enumClass then .enumeration else .sealed
  entries : made.entries.length = if form = .enumClass then (casesOf decl).length else 0
  classes : form = .sealedClass → ∃ classes rest, made.members = classes ++ rest ∧
    List.Forall₂ IsCaseClass (casesOf decl) classes

namespace Enum

variable (descent : Descent) (context : Context)

variable (decl : TypeDecl Node) (range : Option SourceRange)

theorem map_fst_placedCases : (placedCases decl.members).map Prod.fst = casesOf decl := by
  rw [placedCases, List.map_filterMap, casesOf]
  congr 1
  funext node
  cases node.construct <;> rfl

theorem entries_returns (enum : String) (rawType next cases) :
    Returns context (entries descent enum rawType next cases) fun made =>
      made.length = cases.length := by
  induction cases generalizing next with
  | nil => exact .pure rfl
  | cons case rest ih =>
    apply Returns.after
    intro name
    have hrest (value : List Kotlin.Node × Option Int) :
        Returns context
          (do return ⟨name, value.1⟩ :: (← entries descent enum rawType value.2 rest))
          fun made => made.length = rest.length + 1 :=
      (ih value.2).bind fun _ h => .pure (congrArg Nat.succ h)
    cases rawType with
    | none => exact .after hrest
    | some rawType => exact .after hrest

theorem enumClass_makes :
    MakesClass context (enumClass descent decl range) range (IsEnumClass .enumClass decl) := by
  have hlength : (placedCases decl.members).length = (casesOf decl).length := by
    rw [← map_fst_placedCases, List.length_map]
  exact (entries_returns descent context _ _ _ _).bind fun _ h => .after fun _ => .after fun _ =>
    .pure ⟨_, rfl, by dsimp only, rfl, h.trans hlength, nofun⟩

theorem caseClass_returns (enum : String) (case) :
    Returns context (caseClass enum case range) (IsCaseClass case) := by
  have hfield (value : Swift.Param Node) :
      Returns context (caseField range value) (IsFieldFor value) :=
    .after fun _ => .pure ⟨by dsimp only, rfl⟩
  exact .after fun _ => (Returns.mapM hfield case.params).bind fun _ h => .pure ⟨_, rfl, rfl, h⟩

theorem sealedClass_makes :
    MakesClass context (sealedClass descent decl range) range (IsEnumClass .sealedClass decl) := by
  have hcase (placed : EnumCaseDecl Node × Option SourceRange) :
      Returns context (caseClass decl.name placed.1 placed.2) (IsCaseClass placed.1) :=
    caseClass_returns context placed.2 decl.name placed.1
  refine (Returns.mapM hcase (placedCases decl.members)).bind ?_
  intro classes hclasses
  rw [← List.forall₂_map_left_iff, map_fst_placedCases] at hclasses
  exact .after fun _ => .after fun _ =>
    .pure ⟨_, rfl, by dsimp only, rfl, rfl, fun _ => ⟨classes, _, rfl, hclasses⟩⟩

theorem enumDecl_makes :
    MakesClass context (enumDecl descent decl range) range
      (IsEnumClass (enumForm ((context.types.enum? decl.name).getD decl)) decl) := by
  refine (Returns.types context).bind fun types htypes => ?_
  rw [htypes]
  cases enumForm ((context.types.enum? decl.name).getD decl) with
  | enumClass => exact enumClass_makes descent context decl range
  | sealedClass => exact sealedClass_makes descent context decl range

end Enum

/-! ## The form that fits -/

/-- If the gathered declarations of a name agree with a declaration of it, so does the first. -/
theorem DeclaredTypes.getD_find?_of_agree (types : DeclaredTypes) (kind : Swift.TypeKind)
    (decl : TypeDecl Node) (form : TypeDecl Node → α)
    (h : ∀ other ∈ types.ofKind kind, other.name = decl.name → form other = form decl) :
    form ((types.find? kind decl.name).getD decl) = form decl := by
  cases hfirst : types.find? kind decl.name with
  | none => rfl
  | some first =>
    have hname := List.find?_some (p := fun found : TypeDecl Node => found.name == decl.name) hfirst
    exact h first (List.mem_of_find?_eq_some hfirst) (beq_iff_eq.1 hname)

theorem storedProperties_ne_nil_of_dataClass
    (h : structForm decl = .dataClass) : storedProperties decl ≠ [] := by
  intro hnone
  simp [structForm, hnone] at h

theorem enumForm_eq_enumClass_iff :
    enumForm decl = .enumClass ↔ ∀ case ∈ casesOf decl, case.params = [] := by
  simp [enumForm]

theorem IsStructClass.kind_eq_data_iff (h : IsStructClass form decl made) :
    made.kind = .data ↔ form = .dataClass := by
  rw [h.kind_eq]
  cases form <;> decide

theorem IsEnumClass.kind_eq_enumeration_iff (h : IsEnumClass form decl made) :
    made.kind = .enumeration ↔ form = .enumClass := by
  rw [h.kind_eq]
  cases form <;> decide

/-! ## Visits -/

theorem outcome_typeDecl (hrole : visit.role = .statement)
    (hc : visit.node.construct = .typeDecl kind decl) :
    ((descend (height + 1)).outcome context visit).1 =
      [(((typeDecl (descend height) kind decl visit.node.range).run context).run
        visit.state).1] := by
  rw [outcome_of_one hrole (by simp only [lowerStatement, hc]; rfl)]

end Lowering

/-! ## Conversion -/

namespace Conversion

open Lowering DeclaredTypes

theorem Reaches.becomes_class (h : Reaches settings dump height place visit)
    (hc : visit.node.construct = .typeDecl kind decl)
    (hmakes : ∀ below, MakesClass (context settings dump)
      (typeDecl (descend below) kind decl visit.node.range) visit.node.range P) :
    ∃ made, Becomes settings dump height visit ⟨.classDef made, visit.node.range⟩ ∧ P made := by
  have hrole := h.role_eq_statement hc
  obtain ⟨below, rfl⟩ := h.exists_succ
  obtain ⟨made, hmade, hclass⟩ := hmakes below visit.state
  refine ⟨made, h.becomes ?_, hclass⟩
  rw [← hmade]
  exact outcome_typeDecl hrole hc

/-- A struct or enum that is reached becomes a class with its own contents, in the form of the first
declaration of its name. It gets the form that fits it exactly if the two forms are the same, as
they are if all gathered declarations of the name agree. -/
theorem ofDump_forms_follow_first_declarations (settings : Settings) (dump : Dump.Node) :
    let types := ofTree (ofDump settings dump).swift
    (∀ height place visit decl, Reaches settings dump height place visit →
      visit.node.construct = .typeDecl .structType decl →
      let form := structForm ((types.struct? decl.name).getD decl)
      (∃ made, Becomes settings dump height visit ⟨.classDef made, visit.node.range⟩ ∧
        IsStructClass form decl made ∧
        ((made.kind = .data ↔ structForm decl = .dataClass) ↔ form = structForm decl) ∧
        (form = structForm decl → made.kind = .data → made.params ≠ [])) ∧
      ((∀ other ∈ types.ofKind .structType, other.name = decl.name →
          structForm other = structForm decl) →
        form = structForm decl)) ∧
    (∀ height place visit decl, Reaches settings dump height place visit →
      visit.node.construct = .typeDecl .enumType decl →
      let form := enumForm ((types.enum? decl.name).getD decl)
      (∃ made, Becomes settings dump height visit ⟨.classDef made, visit.node.range⟩ ∧
        IsEnumClass form decl made ∧
        ((made.kind = .enumeration ↔ ∀ case ∈ casesOf decl, case.params = []) ↔
          form = enumForm decl)) ∧
      ((∀ other ∈ types.ofKind .enumType, other.name = decl.name →
          enumForm other = enumForm decl) →
        form = enumForm decl)) := by
  intro types
  constructor
  · intro height place visit decl h hc form
    obtain ⟨made, hmade, hclass⟩ := h.becomes_class hc fun below =>
      TypeBody.structDecl_makes (descend below) _ decl visit.node.range
    refine ⟨⟨made, hmade, hclass, ?_, ?_⟩, types.getD_find?_of_agree .structType decl structForm⟩
    · rw [hclass.kind_eq_data_iff]
      change (form = .dataClass ↔ _) ↔ _
      cases form <;> cases structForm decl <;> decide
    · intro hform hdata hnone
      have hparams := hclass.params
      rw [if_pos (hclass.kind_eq_data_iff.1 hdata), hnone] at hparams
      have hown : structForm decl = .dataClass := hform ▸ hclass.kind_eq_data_iff.1 hdata
      exact storedProperties_ne_nil_of_dataClass hown (List.forall₂_nil_right_iff.1 hparams)
  · intro height place visit decl h hc form
    obtain ⟨made, hmade, hclass⟩ := h.becomes_class hc fun below =>
      Enum.enumDecl_makes (descend below) _ decl visit.node.range
    refine ⟨⟨made, hmade, hclass, ?_⟩, types.getD_find?_of_agree .enumType decl enumForm⟩
    rw [hclass.kind_eq_enumeration_iff, ← enumForm_eq_enumClass_iff]
    change (form = .enumClass ↔ _) ↔ _
    cases form <;> cases enumForm decl <;> decide

/-- Two classes with an enum of the same name each, of which the second has an associated value. -/
def twoKinds : Dump.Node :=
  ⟨"source_file", [],
    [⟨"class_decl", [("name", "A")], [⟨"enum_decl", [("name", "Kind")],
        [⟨"enum_element_decl", [("name", "one")], [], none⟩], none⟩], none⟩,
      ⟨"class_decl", [("name", "B")], [⟨"enum_decl", [("name", "Kind")],
        [⟨"enum_element_decl", [("name", "two")], [⟨"parameter_list", [],
          [⟨"parameter", [("name", "n"), ("type", "Int")], [], none⟩], none⟩], none⟩],
        none⟩], none⟩], none⟩

/-- The second enum becomes an enumeration like the first, without its associated value. -/
theorem associated_value_dropped :
    (ofDump {} twoKinds).kotlin =
        ⟨.file [⟨.classDef
            { name := "A", kind := .plain
              members := [⟨.classDef
                { name := "Kind", kind := .enumeration, entries := [⟨"ONE", []⟩] }, none⟩] }, none⟩,
          ⟨.classDef
            { name := "B", kind := .plain
              members := [⟨.classDef
                { name := "Kind", kind := .enumeration, entries := [⟨"TWO", []⟩] }, none⟩] },
            none⟩], none⟩ ∧
      (ofDump {} twoKinds).diagnostics = [] := by
  with_unfolding_all exact ⟨rfl, rfl⟩

end Conversion

end SwiftToKotlin
