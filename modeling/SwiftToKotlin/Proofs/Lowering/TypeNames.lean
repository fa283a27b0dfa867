import SwiftToKotlin.Proofs.Lowering.CaseNames
import SwiftToKotlin.Proofs.Lowering.WrittenTypes

/-!
# The types of constructs

Every type that a construct mentions is written in its place in what the construct becomes: the
types of parameters, results, variables, casts and caught errors, and the receivers of the members
of extensions. A class is declared under the identifier of its name, and its supertypes are taken
over as they are. So a type has one name everywhere exactly if it is written like its identifier.
-/

namespace SwiftToKotlin

/-- Whether types stand in a construct itself. -/
def Swift.Construct.mentionsTypes {α : Type} : Swift.Construct α → Bool
  | .function _ | .initializer _ _ | .variableDecl _ | .typeDecl _ _ | .typeAlias _ _
  | .switchStmt _ _ | .doCatch _ _ | .cast _ _ _ => true
  | _ => false

namespace Lowering

open Swift (Node TypeDecl EnumCaseDecl)
open DeclaredTypes

variable {α β : Type}

/-! ## What is written for a construct -/

def HasTypeOf (param : Swift.Param Node) (made : Kotlin.Param Kotlin.Node) : Prop :=
  made.ty = writtenType param.ty

/-- The type of a constructor parameter for a stored property is the declared one, or one that is
known of the initial value. -/
def HasPropertyType (property : Swift.VariableDecl Node) (made : Kotlin.Param Kotlin.Node) : Prop :=
  ∃ known : Option Swift.Ty, made.ty = (known.map writtenType).getD (.named "Any" []) ∧
    ∀ ty, property.ty = some ty → known = some ty

/-- A class has the identifier of its name, and the names of its supertypes as they are. -/
structure IsClassOf (decl : TypeDecl Node) (skipped : List String)
    (made : Kotlin.ClassDef Kotlin.Node) : Prop where
  name_eq : made.name = identifier decl.name
  supertypes_eq : made.supertypes.map Kotlin.Supertype.name =
    decl.inherits.filter (!skipped.contains ·)

/-- The class for a case with the types of its associated values, below that of the enum. -/
def IsClassOfCase (enum : String) (case : EnumCaseDecl Node) (node : Kotlin.Node) : Prop :=
  ∃ made, node.construct = .classDef made ∧
    made.supertypes.map Kotlin.Supertype.name = [identifier enum] ∧
      List.Forall₂ HasTypeOf case.params made.params

/-- A pattern that checks a type becomes a condition on that type. -/
inductive WritesPattern (pattern : Node) : Kotlin.WhenCondition Kotlin.Node → Prop
  | type (h : pattern.construct = .cast .check value ty) :
      WritesPattern pattern (.is (writtenType ty))
  | case (h : ∀ value ty, pattern.construct ≠ .cast .check value ty) (enum written : String) :
      WritesPattern pattern (.is (.named s!"{identifier enum}.{written}" []))
  | value (h : ∀ value ty, pattern.construct ≠ .cast .check value ty) (node : Kotlin.Node) :
      WritesPattern pattern (.value node)

/-- The types of a construct stand where they belong in what it becomes. The receiver is that of
members of an extension. -/
inductive WritesTypes (receiver : Option Kotlin.Ty) :
    Swift.Construct Node → Kotlin.Construct Kotlin.Node → Prop
  | function (hreceiver : made.receiver = receiver.map fun ty =>
        if decl.isStatic then .named s!"{ty.display}.Companion" [] else ty)
      (hparams : List.Forall₂ HasTypeOf decl.params made.params)
      (hresult : made.returnType = (decl.result.map writtenType).bind Function.mentioned) :
      WritesTypes receiver (.function decl) (.function made)
  | initializer (hparams : List.Forall₂ HasTypeOf params made) (body : Option (List Node))
      (statements : List Kotlin.Node) :
      WritesTypes receiver (.initializer params body) (.secondaryConstructor made statements)
  | variableDecl (hreceiver : made.receiver = receiver) (hty : made.ty = decl.ty.map writtenType) :
      WritesTypes receiver (.variableDecl decl) (.property made)
  | dataClass (hclass : IsClassOf decl [] made)
      (hparams : List.Forall₂ HasPropertyType (storedProperties decl) made.params) :
      WritesTypes receiver (.typeDecl .structType decl) (.classDef made)
  | classWithEquality (hclass : IsClassOf decl [] made) (hparams : made.params = [])
      (hequals : ∃ stored range,
        TypeBody.equalsMember (identifier decl.name) stored range ∈ made.members) :
      WritesTypes receiver (.typeDecl .structType decl) (.classDef made)
  | classDecl (hclass : IsClassOf decl [] made) (hparams : made.params = []) :
      WritesTypes receiver (.typeDecl .classType decl) (.classDef made)
  | protocolDecl (hclass : IsClassOf decl [] made) (hparams : made.params = []) :
      WritesTypes receiver (.typeDecl .protocolType decl) (.classDef made)
  | enumClass (hclass : IsClassOf decl Enum.rawValueTypes made)
      (hparams : made.params.map Kotlin.Param.ty =
        (Enum.rawType? decl).toList.map fun rawType => .named (kotlinTypeName rawType) []) :
      WritesTypes receiver (.typeDecl .enumType decl) (.classDef made)
  | sealedClass (hclass : IsClassOf decl [] made) (hparams : made.params = [])
      (hcases : ∃ classes rest, made.members = classes ++ rest ∧
        List.Forall₂ (IsClassOfCase decl.name) (casesOf decl) classes) :
      WritesTypes receiver (.typeDecl .enumType decl) (.classDef made)
  | typeAlias (name : String) (ty : Swift.Ty) :
      WritesTypes receiver (.typeAlias name ty) (.typeAlias (identifier name) (writtenType ty))
  | switchStmt (subject : Node) (made : Kotlin.Node) (hbranches : List.Forall₂ (fun case branch =>
        List.Forall₂ WritesPattern case.patterns branch.conditions) cases branches) :
      WritesTypes receiver (.switchStmt subject cases) (.whenStmt (some made) branches)
  | doCatch (body : List Node) (made : List Kotlin.Node)
      (hcatches : List.Forall₂ (fun clause block =>
        block.ty = (clause.ty.map writtenType).getD (.named "Exception" [])) catches blocks) :
      WritesTypes receiver (.doCatch body catches) (.tryCatch made blocks)
  | cast (kind : Swift.CastKind) (value : Node) (ty : Swift.Ty) (made : Kotlin.Node) :
      WritesTypes receiver (.cast kind value ty)
        (.cast (Expression.castKind kind) made (writtenType ty))

/-- The types of a construct stand where they belong in a node. -/
abbrev Writes (receiver : Option Kotlin.Ty) (construct : Swift.Construct Node)
    (node : Kotlin.Node) : Prop :=
  WritesTypes receiver construct node.construct

/-! ## Results in given surroundings -/

theorem Returns.lowerTy (context) (ty : Swift.Ty) (range) :
    Returns context (lowerTy ty range) (· = writtenType ty) :=
  lowerTy_fst ty range context

theorem Returns.optionalTy (context ty range) :
    Returns context (Swift.optionM (Lowering.lowerTy · range) ty) (· = ty.map writtenType) := by
  cases ty with
  | none => exact .pure rfl
  | some ty => exact (Returns.lowerTy context ty range).bind fun _ h => .pure (congrArg some h)

theorem optionalTy_surroundings (ty range context state) :
    (((Swift.optionM (lowerTy · range) ty).run context).run state).2.surroundings =
      state.surroundings := by
  cases ty with
  | none => rfl
  | some ty =>
    change (((lowerTy ty range).run context).run state).2.surroundings = _
    unfold lowerTy
    cases kotlinType ty <;> rfl

/-- What holds of the result of an action in every state with these surroundings. -/
def ReturnsAmid (context : Context) (around : Surroundings) (action : Lower α) (P : α → Prop) :
    Prop :=
  ∀ state : State, state.surroundings = around → P ((action.run context).run state).1

namespace ReturnsAmid

theorem of_returns (h : Returns context action P) :
    ReturnsAmid context around action P :=
  fun state _ => h state

theorem bind (h : Returns context action P)
    (hsame : ∀ state, ((action.run context).run state).2.surroundings = state.surroundings)
    (hf : ∀ a, P a → ReturnsAmid context around (f a) Q) :
    ReturnsAmid context around (action >>= f) Q :=
  fun state hstate => hf _ (h state) _ ((hsame state).trans hstate)

theorem after {action : Lower α}
    (hsame : ∀ state, ((action.run context).run state).2.surroundings = state.surroundings)
    (hf : ∀ a, ReturnsAmid context around (f a) Q) :
    ReturnsAmid context around (action >>= f) Q :=
  .bind (P := fun _ => True) (fun _ => trivial) hsame fun a _ => hf a

theorem looking (h : ReturnsAmid context around (f around) P) :
    ReturnsAmid context around (surroundings >>= f) P := by
  intro state hstate
  subst hstate
  exact h state rfl

end ReturnsAmid

/-! ## Functions and variables -/

variable (descent : Descent) (context : Context) (receiver : Option Kotlin.Ty)

namespace Function

variable (range : Option SourceRange)

theorem param_returns (value) : Returns context (param descent range value) (HasTypeOf value) :=
  .after fun _ => (Returns.lowerTy context value.ty range).bind fun _ h => .after fun _ => .pure h

theorem function_writes (around decl) :
    ReturnsAmid context around (function descent decl range)
      (Writes around.scope.receiver? (.function decl)) := by
  refine .looking (.of_returns ?_)
  refine .bind (P := fun made => List.Forall₂ HasTypeOf decl.params made.1 ∧
    made.2.1 = (decl.result.map writtenType).bind mentioned) (.inBlock ?_) ?_
  · refine (Returns.mapM (param_returns descent context range) decl.params).bind ?_
    intro params hparams
    refine (Returns.optionalTy context decl.result range).bind ?_
    intro result hresult
    have hrest (statements : Option (List Kotlin.Node)) :
        Returns context (pure (params, result.bind mentioned, statements)) fun made =>
          List.Forall₂ HasTypeOf decl.params made.1 ∧
            made.2.1 = (decl.result.map writtenType).bind mentioned :=
      .pure ⟨hparams, by rw [hresult]⟩
    dsimp only
    split
    · split
      · exact .after hrest
      · exact .after hrest
    · exact .after hrest
  · rintro ⟨params, returnType, statements⟩ ⟨hparams, hresult⟩
    exact .pure (.function rfl hparams hresult)

theorem initializer_writes (htype : around.scope.isType = true) (params statements receiver) :
    ReturnsAmid context around (initializer descent params statements range)
      (Writes receiver (.initializer params statements)) := by
  refine .looking (.of_returns ?_)
  rw [if_neg (by simp [htype])]
  refine .inBlock ((Returns.mapM (param_returns descent context range) params).bind ?_)
  exact fun _ hparams => .after fun _ => .pure (.initializer hparams _ _)

theorem computedProperty_writes (around decl) :
    ReturnsAmid context around
      (computedProperty descent decl (decl.ty.map writtenType) range)
        (Writes around.scope.receiver? (.variableDecl decl)) :=
  .looking (.of_returns (.after fun _ => .after fun _ => .pure (.variableDecl rfl rfl)))

theorem storedProperty_writes (decl known) :
    Returns context (storedProperty descent decl known (decl.ty.map writtenType) range)
      (Writes none (.variableDecl decl)) :=
  .after fun _ => .after fun _ => .pure (.variableDecl rfl rfl)

theorem variableDecl_writes (h : decl.isStored = true → around.scope.receiver? = none) :
    ReturnsAmid context around (variableDecl descent decl range)
      (Writes around.scope.receiver? (.variableDecl decl)) := by
  have hlooking (state : State) :
      (((variableType decl).run context).run state).2.surroundings = state.surroundings := by
    obtain ⟨known, hrun⟩ := variableType_run decl context state
    rw [hrun]
  refine .after hlooking fun known => .looking ?_
  have hallowed : ¬ (decl.isStored && around.scope.receiver?.isSome) = true := by
    intro hrefused
    rw [Bool.and_eq_true] at hrefused
    rw [h hrefused.1] at hrefused
    cases hrefused.2
  rw [if_neg hallowed]
  refine .bind (Returns.optionalTy context decl.ty range) (optionalTy_surroundings _ _ _) ?_
  rintro _ rfl
  split
  · next hstored =>
    rw [h hstored]
    exact .of_returns (storedProperty_writes descent context range decl known)
  · exact .after (fun _ => rfl) fun _ => computedProperty_writes descent context range around decl

end Function

/-! ## Classes -/

namespace TypeBody

variable (decl : TypeDecl Node) (range : Option SourceRange)

theorem map_name_supertypes (types : DeclaredTypes) (skipped) :
    (supertypes types decl skipped).map Kotlin.Supertype.name =
      decl.inherits.filter (!skipped.contains ·) := by
  simp [supertypes, Function.comp_def]

theorem propertyType_returns (property) :
    Returns context (propertyType property range) fun ty =>
      ∃ known : Option Swift.Ty, ty = (known.map writtenType).getD (.named "Any" []) ∧
        ∀ ty, property.ty = some ty → known = some ty := by
  have hknown : Returns context (Function.variableType property) fun known =>
      ∀ ty, property.ty = some ty → known = some ty := by
    intro state ty hty
    simp only [Function.variableType, hty]
    rfl
  refine hknown.bind fun known h => ?_
  cases known with
  | none => exact .pure ⟨none, rfl, h⟩
  | some ty => exact fun state => ⟨some ty, Returns.lowerTy context ty range state, h⟩

theorem constructorProperty_writes (property range) :
    Returns context (constructorProperty descent property range) (HasPropertyType property) :=
  (propertyType_returns context range property).bind fun _ h =>
    .after fun _ => .after fun _ => .after fun _ => .pure h

theorem dataClass_writes :
    Returns context (dataClass descent decl range)
      (Writes receiver (.typeDecl .structType decl)) := by
  have hparams := constructorProperties_returns (constructorProperty_writes descent context)
    decl.name decl.inherits decl.members
  unfold dataClass
  rw [List.partition_eq_filter_filter]
  refine .bind (P := fun made => List.Forall₂ HasPropertyType (storedProperties decl) made.1) ?_ ?_
  · exact .inBlock (hparams.surrounded.bind fun _ h => .after fun _ => .pure h)
  · intro made h
    exact .after fun types =>
      .pure (.dataClass ⟨by dsimp only, map_name_supertypes decl types []⟩ h)

theorem classWithEquality_writes :
    Returns context (classWithEquality descent decl range)
      (Writes receiver (.typeDecl .structType decl)) := by
  refine .after fun _ => .after fun members => .after fun types => .pure ?_
  exact .classWithEquality ⟨by dsimp only, map_name_supertypes decl types []⟩ rfl
    ⟨(storedProperties decl).map (identifier ·.name), range, by simp [Members.nodes]⟩

theorem structDecl_writes :
    Returns context (structDecl descent decl range)
      (Writes receiver (.typeDecl .structType decl)) := by
  refine .after fun types => ?_
  cases structForm ((types.struct? decl.name).getD decl) with
  | dataClass => exact dataClass_writes descent context receiver decl range
  | classWithEquality => exact classWithEquality_writes descent context receiver decl range

theorem classDecl_writes :
    Returns context (classDecl descent decl range)
      (Writes receiver (.typeDecl .classType decl)) := by
  exact .after fun types => .after fun _ =>
    .pure (.classDecl ⟨by dsimp only, map_name_supertypes decl types []⟩ rfl)

theorem protocolDecl_writes :
    Returns context (protocolDecl descent decl range)
      (Writes receiver (.typeDecl .protocolType decl)) := by
  exact .after fun _ => .pure (.protocolDecl ⟨by dsimp only, by simp [Function.comp_def]⟩ rfl)

end TypeBody

namespace Enum

variable (decl : TypeDecl Node) (range : Option SourceRange)

theorem enumClass_writes :
    Returns context (enumClass descent decl range)
      (Writes receiver (.typeDecl .enumType decl)) := by
  refine .after fun _ => .after fun _ => .after fun types => .pure ?_
  exact .enumClass ⟨by dsimp only, TypeBody.map_name_supertypes decl types rawValueTypes⟩
    (by simp [rawValueParam])

theorem caseClass_writes (enum : String) (case) :
    Returns context (caseClass enum case range) (IsClassOfCase enum case) := by
  have hfield (value : Swift.Param Node) :
      Returns context (caseField range value) (HasTypeOf value) :=
    (Returns.lowerTy context value.ty range).bind fun _ h => .pure h
  exact .after fun _ => (Returns.mapM hfield case.params).bind fun _ h => .pure ⟨_, rfl, rfl, h⟩

theorem sealedClass_writes :
    Returns context (sealedClass descent decl range)
      (Writes receiver (.typeDecl .enumType decl)) := by
  have hcase (placed : EnumCaseDecl Node × Option SourceRange) :
      Returns context (caseClass decl.name placed.1 placed.2) (IsClassOfCase decl.name placed.1) :=
    caseClass_writes context placed.2 decl.name placed.1
  refine (Returns.mapM hcase (placedCases decl.members)).bind ?_
  intro classes hclasses
  rw [← List.forall₂_map_left_iff, map_fst_placedCases] at hclasses
  refine .after fun members => .after fun types => .pure ?_
  exact .sealedClass ⟨by dsimp only, TypeBody.map_name_supertypes decl types []⟩ rfl
    ⟨classes, _, rfl, hclasses⟩

theorem enumDecl_writes :
    Returns context (enumDecl descent decl range) (Writes receiver (.typeDecl .enumType decl)) := by
  refine .after fun types => ?_
  cases enumForm ((types.enum? decl.name).getD decl) with
  | enumClass => exact enumClass_writes descent context receiver decl range
  | sealedClass => exact sealedClass_writes descent context receiver decl range

end Enum

theorem typeDecl_writes (kind : Swift.TypeKind) (decl : TypeDecl Node) (range) :
    Returns context (typeDecl descent kind decl range) (Writes receiver (.typeDecl kind decl)) := by
  cases kind with
  | structType => exact TypeBody.structDecl_writes descent context receiver decl range
  | classType => exact TypeBody.classDecl_writes descent context receiver decl range
  | protocolType => exact TypeBody.protocolDecl_writes descent context receiver decl range
  | enumType => exact Enum.enumDecl_writes descent context receiver decl range

/-! ## Statements and casts -/

section Statements

variable (range : Option SourceRange)

theorem Statement.whenCondition_writes (pattern : Node) :
    Returns context (whenCondition descent pattern) (WritesPattern pattern) := by
  unfold whenCondition
  split
  · next ty hc =>
    exact (Returns.lowerTy context ty pattern.range).bind fun _ h => .pure (h ▸ .type hc)
  · next hne =>
    refine .after fun found => ?_
    cases found with
    | none => exact .after fun node => .pure (.value hne node)
    | some found =>
      refine .after fun types => ?_
      split
      · exact .after fun written => .pure (.case hne found.1 written)
      · exact .after fun node => .pure (.value hne node)

theorem Statement.switchStmt_writes (subject : Node) (cases) :
    Returns context (switchStmt descent subject cases range)
      (Writes receiver (.switchStmt subject cases)) := by
  have hbranch (case : Swift.SwitchCase Node) :
      Returns context (whenBranch descent case) fun branch =>
        List.Forall₂ WritesPattern case.patterns branch.conditions :=
    (Returns.mapM (whenCondition_writes descent context) case.patterns).bind fun _ h =>
      .after fun _ => .pure h
  exact .after fun _ => .after fun made => (Returns.mapM hbranch cases).surrounded.bind fun _ h =>
    .pure (.switchStmt subject made h)

theorem Statement.doCatch_writes (body catches) :
    Returns context (doCatch descent body catches range)
      (Writes receiver (.doCatch body catches)) := by
  have hcatch (clause : Swift.CatchClause Node) :
      Returns context (catchBlock descent clause) fun block =>
        block.ty = (clause.ty.map writtenType).getD (.named "Exception" []) := by
    unfold catchBlock
    split
    · next ty hty =>
      rw [hty]
      exact (Returns.lowerTy context ty clause.range).bind fun _ h => .after fun _ => .pure h
    · next hty =>
      rw [hty]
      exact .bind (P := (· = .named "Exception" [])) (.pure rfl) fun _ h => .after fun _ => .pure h
  exact .after fun made => (Returns.mapM hcatch catches).bind fun _ h =>
    .pure (.doCatch body made h)

theorem Expression.lower_writes (hc : node.construct = .cast kind value ty) :
    Returns context (lower descent node) (Writes receiver node.construct) := by
  simp only [lower, hc]
  exact .after fun made => (Returns.lowerTy context ty node.range).bind fun _ h =>
    .pure (h ▸ .cast kind value ty made)

end Statements

theorem lowerStatement_writes {place : Place}
    (hplace : place.Matches state.surroundings) (hobstacle : place.obstacle? node.construct = none)
    (hmentions : node.construct.mentionsTypes = true) :
    ∃ made, (((lowerStatement descent node).run context).run state).1 = [made] ∧
      WritesTypes state.surroundings.scope.receiver? node.construct made.construct := by
  obtain ⟨construct, range⟩ := node
  cases construct with
  | function decl => exact ⟨_, rfl, Function.function_writes descent context range _ decl state rfl⟩
  | initializer params body =>
    have htype : state.surroundings.scope.isType = true := by
      rw [Scope.isType_iff, hplace.owner]
      by_contra howner
      simp [Place.obstacle?, howner] at hobstacle
    exact ⟨_, rfl, Function.initializer_writes descent context range htype params body _ state rfl⟩
  | variableDecl decl =>
    have hstored (h : decl.isStored = true) : state.surroundings.scope.receiver? = none := by
      rw [← Option.not_isSome_iff_eq_none, Scope.isSome_receiver?_iff, hplace.owner]
      intro howner
      simp [Place.obstacle?, h, howner] at hobstacle
    exact ⟨_, rfl, Function.variableDecl_writes descent context range hstored state rfl⟩
  | typeDecl kind decl => exact ⟨_, rfl, typeDecl_writes descent context _ kind decl range state⟩
  | typeAlias name ty =>
    refine ⟨⟨.typeAlias (identifier name) (writtenType ty), range⟩, ?_, .typeAlias name ty⟩
    rw [← lowerTy_fst ty range context state]
    rfl
  | switchStmt subject cases =>
    exact ⟨_, rfl, Statement.switchStmt_writes descent context _ range subject cases state⟩
  | doCatch body catches =>
    exact ⟨_, rfl, Statement.doCatch_writes descent context _ range body catches state⟩
  | cast kind value ty => exact ⟨_, rfl, Expression.lower_writes descent context _ rfl state⟩
  | _ => cases hmentions

end Lowering

/-! ## Conversion -/

namespace Conversion

open Lowering

/-- What the members of a declaration extend, where a visit takes place: the type of an extension
around it, or nothing. -/
def ExtendsAt (settings : Settings) (dump : Dump.Node) (place : Place) (visit : Visit)
    (receiver : Option Kotlin.Ty) : Prop :=
  if place.owner = .extension then
    ∃ height outer whole extended members, Reaches settings dump height outer whole ∧
      whole.node.construct = .extensionDecl extended members ∧
        visit.node.StandsIn visit.role whole.node ∧ receiver = some (extensionType extended)
  else receiver = none

namespace Reaches

theorem extendsAt (h : Reaches settings dump height place visit) :
    ExtendsAt settings dump place visit visit.state.surroundings.scope.receiver? := by
  have howner := h.matches_surroundings.owner
  unfold ExtendsAt
  cases hscope : visit.state.surroundings.scope with
  | extension receiver extended =>
    obtain ⟨rfl, height, outer, whole, members, hwhole, hc, hstands⟩ := h.extended hscope
    rw [hscope] at howner
    rw [if_pos (show place.owner = .extension from howner.symm)]
    exact ⟨height, outer, whole, extended, members, hwhole, hc, hstands, rfl⟩
  | topLevel | type | protocol =>
    rw [hscope] at howner
    rw [← howner]
    rfl

theorem becomes_writing (h : Reaches settings dump height place visit)
    (hobstacle : place.obstacle? visit.node.construct = none)
    (hmentions : visit.node.construct.mentionsTypes = true) :
    ∃ made, Becomes settings dump height visit made ∧
      WritesTypes visit.state.surroundings.scope.receiver? visit.node.construct made.construct := by
  obtain ⟨below, rfl⟩ := h.exists_succ
  cases hrole : visit.role with
  | statement =>
    obtain ⟨made, hmade, hwrites⟩ := lowerStatement_writes (descend below) (context settings dump)
      h.matches_surroundings hobstacle hmentions
    refine ⟨made, h.becomes ?_, hwrites⟩
    simp only [Conversion.made, Descent.outcome, hrole]
    exact hmade
  | value =>
    obtain ⟨kind, value, ty, hc⟩ : ∃ kind value ty, visit.node.construct = .cast kind value ty := by
      cases hc : visit.node.construct with
      | cast kind value ty => exact ⟨kind, value, ty, rfl⟩
      | function | initializer | variableDecl | typeDecl | typeAlias | switchStmt | doCatch =>
        cases hrole.symm.trans (h.role_eq_statement hc)
      | _ =>
        rw [hc] at hmentions
        cases hmentions
    refine ⟨_, h.becomes ?_,
      Expression.lower_writes (descend below) (context settings dump) _ hc visit.state⟩
    simp only [Conversion.made, Descent.outcome, hrole]
    rfl

end Reaches

/-- A construct that is reached becomes one that has its types in the same places, the members of an
extension have its type as their receiver, and a class has the identifier of its name and its
supertypes as they are. The names in a written type are those of the Swift type, looked up in the
table of types. So a type and its class have the same name exactly if the name is neither escaped
nor in the table. -/
theorem ofDump_writes_types_by_table (settings : Settings) (dump : Dump.Node) :
    (∀ height place visit, Reaches settings dump height place visit →
      place.obstacle? visit.node.construct = none → visit.node.construct.mentionsTypes = true →
      ∃ receiver made, ExtendsAt settings dump place visit receiver ∧
        Becomes settings dump height visit made ∧
          WritesTypes receiver visit.node.construct made.construct) ∧
    (∀ ty, (writtenType ty).names = (mentions ty).map (Mention.written kotlinTypeName) ∨
      (∃ tuple, kotlinType ty = .error tuple) ∧ writtenType ty = .named "Any" []) ∧
    (∀ ty, (mentions ty).map (Mention.written kotlinTypeName) =
        (mentions ty).map (Mention.written identifier) ↔
      ∀ name, .named name ∈ mentions ty → kotlinTypeName name = identifier name) ∧
    (∀ name, kotlinTypeName name = identifier name ↔
      identifier name = name ∧ name ∉ renamedTypes ∧ Text.without "Swift." name = none) ∧
    ∀ name, identifier name = name ↔
      (Text.strip '\x60' name = name ∧ name ≠ "self" ∧ name ∉ kotlinKeywords) ∨
        ∃ keyword ∈ kotlinKeywords, name = s!"`{keyword}`" := by
  refine ⟨?_, names_writtenType, fun ty => map_written_eq_iff _ _ _,
    kotlinTypeName_eq_identifier_iff, identifier_eq_self_iff⟩
  intro height place visit h hobstacle hmentions
  obtain ⟨made, hbecomes, hwrites⟩ := h.becomes_writing hobstacle hmentions
  exact ⟨_, made, h.extendsAt, hbecomes, hwrites⟩

/-- A class whose name is a keyword of Kotlin, and a function with a parameter of its type. -/
def keywordClass : Dump.Node :=
  ⟨"source_file", [],
    [⟨"class_decl", [("name", "object")], [], none⟩,
      ⟨"func_decl", [("name", "f")],
        [⟨"parameter_list", [],
            [⟨"parameter", [("name", "x"), ("type", "object")], [], none⟩], none⟩,
          ⟨"brace_stmt", [], [], none⟩], none⟩], none⟩

/-- The name of the class is escaped, but the type of the parameter is not. -/
theorem keyword_type_unescaped :
    (ofDump {} keywordClass).kotlin =
        ⟨.file [⟨.classDef { name := "`object`", kind := .plain }, none⟩,
          ⟨.function
            { name := "f", receiver := none, returnType := none, body := some [], modifiers := []
              params := [{ name := "x", ty := .named "object" [] }] }, none⟩], none⟩ ∧
      (ofDump {} keywordClass).diagnostics = [] := by
  with_unfolding_all exact ⟨rfl, rfl⟩

end Conversion

end SwiftToKotlin
