import SwiftToKotlin.Proofs.Lowering.Parallel.Statement
import SwiftToKotlin.Proofs.Lowering.Visits

/-!
# Declarations and programs side by side

One lemma for each form of a declaration, and at the end the step from the parts of a tree to the
tree. Two runs of a correspondence then stay side by side on trees of any height.
-/

namespace SwiftToKotlin.Lowering

open Swift (Node Ty TypeDecl EnumCaseDecl)

attribute [local simp] Kotlin.Construct.map

variable {c : Correspondence} (below : c.Below descent descent')

variable (range : Option SourceRange)

/-! ## Functions and variables -/

namespace Function

theorem returning_relocate (move body) :
    returning (body.map (Kotlin.Node.relocate move)) =
      (returning body).map (Kotlin.Node.relocate move) := by
  rcases body with _ | ⟨single, _ | ⟨second, rest⟩⟩
  · rfl
  · simp only [returning, List.map_cons, List.map_nil, Kotlin.Node.construct_relocate,
      Kotlin.Construct.isExpression_map]
    split
    · simp
    · rfl
  · rfl

theorem accessor?_relocate (move decl kind) :
    accessor? (decl.map (Node.relocate move)) kind =
      (accessor? decl kind).map (Swift.Accessor.map (Node.relocate move)) := by
  unfold accessor? Swift.VariableDecl.map
  rw [List.find?_map]
  rfl

theorem parallel_variableType (decl) :
    Parallel c blocks id (variableType decl) (variableType (decl.map c.node)) := by
  unfold variableType Swift.VariableDecl.map
  cases decl.ty with
  | some ty => exact .pure rfl
  | none =>
    cases decl.init with
    | some init => exact parallel_typeOf init
    | none => exact .pure rfl

include below

theorem parallel_param (decl) :
    Parallel c 1 (Kotlin.Param.map c.made) (param descent range decl)
      (param descent' (c.move range) (decl.map c.node)) :=
  (parallel_declare _ _).bind fun _ => (parallel_lowerTy _ range).bind fun _ =>
    (Parallel.optionM decl.defaultValue below.value).inside.bind fun _ =>
      .pure (by simp [Kotlin.Param.map, Swift.Param.map])

theorem parallel_body (statements) :
    ParallelNodes c 0 (body descent statements) (body descent' (statements.map c.node)) :=
  (parallel_statements below statements).surrounded _

theorem parallel_returningBody (statements) :
    ParallelNodes c 0 (returningBody descent statements)
      (returningBody descent' (statements.map c.node)) :=
  (parallel_body below statements).bind fun _ => .pure (returning_relocate _ _)

theorem parallel_function (decl) :
    ParallelNode c 0 (function descent decl range)
      (function descent' (decl.map c.node) (c.move range)) := by
  refine parallel_surroundings.bind fun around => ?_
  have hresult : Parallel c 1 id (Swift.optionM (lowerTy · range) decl.result)
      (Swift.optionM (lowerTy · (c.move range)) decl.result) := by
    cases decl.result with
    | none => exact .pure rfl
    | some ty => exact (parallel_lowerTy ty range).bind fun _ => .pure rfl
  -- the parameters, the result and the body are lowered in one block
  refine Parallel.bind (f := Prod.map (List.map (Kotlin.Param.map c.made))
      (Prod.map id (Option.map (List.map c.made)))) (Parallel.inBlock ?_)
    fun (params, returnType, statements) => .pure ?_
  · refine (Parallel.mapM decl.params (parallel_param below range)).bind fun _ =>
      hresult.bind fun result => ?_
    simp only [Swift.FunctionDecl.map]
    cases decl.body with
    | none =>
      exact Parallel.bind (f := Option.map (List.map c.made)) (.pure rfl) fun _ => .pure rfl
    | some statements =>
      have hsome {first second : Lower (List Kotlin.Node)} (h : ParallelNodes c 0 first second) :
          Parallel c 1 (Option.map (List.map c.made)) (some <$> first)
            (some <$> second) :=
        h.inside.map fun _ => rfl
      exact .ite ((hsome (parallel_returningBody below statements)).bind fun _ => .pure rfl)
        ((hsome (parallel_body below statements)).bind fun _ => .pure rfl)
  · simp only [Kotlin.Node.relocate_mk, Kotlin.Construct.map,
      Option.isNone_map]
    rfl

theorem parallel_initializer (params statements) :
    ParallelNode c 0 (initializer descent params statements range)
      (initializer descent' (params.map (Swift.Param.map c.node))
        (statements.map (List.map c.node)) (c.move range)) := by
  refine parallel_surroundings.bind fun _ => .ite (parallel_refuse _ _) (Parallel.inBlock ?_)
  refine (Parallel.mapM params (parallel_param below range)).bind fun _ =>
    (Parallel.optionM statements (parallel_body below)).inside.bind fun found => .pure ?_
  cases found <;> simp

theorem parallel_computedProperty (decl ty) :
    ParallelNode c 0 (computedProperty descent decl ty range)
      (computedProperty descent' (decl.map c.node) ty (c.move range)) := by
  have hbody (kind : Swift.AccessorKind) :
      (accessor? (decl.map c.node) kind).bind (·.body) =
        ((accessor? decl kind).bind (·.body)).map (List.map c.node) := by
    rw [accessor?_relocate]
    cases accessor? decl kind <;> rfl
  unfold computedProperty
  simp only [hbody]
  simp only [accessor?_relocate]
  refine parallel_surroundings.bind fun _ =>
    (Parallel.optionM _ (parallel_returningBody below)).bind fun _ =>
      (Parallel.optionM _ (parallel_body below)).bind fun _ => .pure ?_
  simp [Kotlin.PropertyDef.map, Swift.VariableDecl.map]

theorem parallel_initialValue (decl) (init : Node) :
    ParallelNode c 0 (initialValue descent decl init)
      (initialValue descent' (decl.map c.node) (c.node init)) := by
  refine parallel_types.bind fun types => ?_
  rw [enumNamed?_relocate]
  exact parallel_surroundings.bind fun _ => (parallel_kept below init).surrounded _

theorem parallel_storedProperty (decl known ty) :
    ParallelNode c 1 (storedProperty descent decl known ty range)
      (storedProperty descent' (decl.map c.node) known ty (c.move range)) := by
  refine (Parallel.optionM decl.init (parallel_initialValue below decl)).inside.bind fun _ =>
    (parallel_declare _ _).bind fun _ => .pure ?_
  simp [Kotlin.PropertyDef.map, Swift.VariableDecl.map]

theorem parallel_variableDecl (decl) :
    ParallelNode c 1 (variableDecl descent decl range)
      (variableDecl descent' (decl.map c.node) (c.move range)) := by
  have hty : Parallel c 1 id (Swift.optionM (lowerTy · range) decl.ty)
      (Swift.optionM (lowerTy · (c.move range)) decl.ty) := by
    cases decl.ty with
    | none => exact .pure rfl
    | some ty => exact (parallel_lowerTy ty range).bind fun _ => .pure rfl
  unfold variableDecl
  rw [Swift.VariableDecl.isStored_map]
  refine (parallel_variableType decl).bind fun known => parallel_surroundings.bind fun _ =>
    .ite (parallel_refuse _ _) (hty.bind fun _ => .ite ?_ ?_)
  · exact parallel_storedProperty below _ _ _ _
  · exact (parallel_declare _ _).bind fun _ => (parallel_computedProperty below _ _ _).inside

end Function

/-! ## Types -/

namespace TypeBody

def Members.relocate (move : Relocation) (members : Members) : Members :=
  ⟨members.instances.map (Kotlin.Node.relocate move),
    members.statics.map (Kotlin.Node.relocate move)⟩

@[simp] theorem Members.nodes_relocate (move) (members : Members) :
    (members.relocate move).nodes (move range) =
      (members.nodes range).map (Kotlin.Node.relocate move) := by
  unfold Members.nodes Members.relocate
  simp only [List.map_append, List.isEmpty_map]
  split
  · rfl
  · simp

@[simp] theorem supertypes_relocate (move) (types : DeclaredTypes) (decl : TypeDecl Node)
    (skipped) :
    supertypes (types.relocate move) (decl.map (Node.relocate move)) skipped =
      supertypes types decl skipped := by
  simp [supertypes, TypeDecl.map]

@[simp] theorem relocate_equalsMember (move) (className : String) (stored) :
    (equalsMember className stored range).relocate move =
      equalsMember className stored (move range) := by
  have hfold (equal : Kotlin.Node) :
      (stored.foldl (fun equal field => Kotlin.Node.binary .conj equal
        (.binary .eq (.member (.reference "this" range) field range)
          (.member (.reference "other" range) field range) range) range) equal).relocate move =
        stored.foldl (fun equal field => Kotlin.Node.binary .conj equal
          (.binary .eq (.member (.reference "this" (move range)) field (move range))
            (.member (.reference "other" (move range)) field (move range)) (move range))
          (move range)) (equal.relocate move) := by
    induction stored generalizing equal with
    | nil => rfl
    | cons field rest ih => rw [List.foldl_cons, List.foldl_cons, ih]; simp
  simp [equalsMember, Kotlin.FunctionDef.map, Kotlin.Param.map, hfold]

@[simp] theorem relocate_hashCodeMember (move stored) :
    (hashCodeMember stored range).relocate move = hashCodeMember stored (move range) := by
  unfold hashCodeMember
  split <;>
    simp [Kotlin.FunctionDef.map, Function.comp_def]

theorem parallel_propertyType (decl) :
    Parallel c blocks id (propertyType decl range)
      (propertyType (decl.map c.node) (c.move range)) := by
  refine (Function.parallel_variableType decl).bind fun known => ?_
  cases known with
  | none => exact .pure rfl
  | some ty => exact parallel_lowerTy ty range

theorem parallel_extensionReceiver (extended : String) :
    Parallel c blocks id (extensionReceiver extended range)
      (extensionReceiver extended (c.move range)) := by
  unfold extensionReceiver
  split
  · exact parallel_lowerTy _ _
  · exact .pure rfl

include below

theorem parallel_members (scope : Scope) (nodes) :
    Parallel c 0 (Members.relocate c.move) (members descent scope nodes)
      (members descent' scope (nodes.map c.node)) := by
  have hmember (node : Node) : Parallel c 1 (Prod.map id (List.map c.made))
      (memberOf descent node) (memberOf descent' (c.node node)) := by
    unfold memberOf
    rw [isStatic_relocate]
    exact (below.statement node).bind fun _ => .pure rfl
  refine Parallel.surrounded _ (Parallel.inBlock ?_)
  refine (Parallel.mapM nodes hmember).bind fun lowered => .pure ?_
  simp [Members.relocate, List.filter_map, List.flatMap_map, List.map_flatMap, Function.comp_def]

theorem parallel_constructorProperty (decl) :
    Parallel c 1 (Kotlin.Param.map c.made)
      (constructorProperty descent decl range)
      (constructorProperty descent' (decl.map c.node) (c.move range)) :=
  (parallel_propertyType range decl).bind fun _ =>
    (Function.parallel_variableType decl).bind fun _ => (parallel_declare _ _).bind fun _ =>
      (Parallel.optionM decl.init (parallel_kept below)).inside.bind fun _ =>
        .pure (by simp [Kotlin.Param.map, Swift.VariableDecl.map])

theorem parallel_constructorProperties (nodes) :
    Parallel c 1 (List.map (Kotlin.Param.map c.made))
      (constructorProperties descent nodes)
      (constructorProperties descent' (nodes.map c.node)) := by
  induction nodes with
  | nil => exact .pure rfl
  | cons node rest ih =>
    simp only [List.map_cons, constructorProperties, Node.construct_relocate, Node.range_relocate]
    cases node.construct with
    | variableDecl decl =>
      exact (parallel_constructorProperty below node.range decl).bind fun _ =>
        ih.bind fun _ => .pure rfl
    | _ => exact ih

theorem parallel_dataClass (decl : TypeDecl Node) :
    ParallelNode c 0 (dataClass descent decl range)
      (dataClass descent' (decl.map c.node) (c.move range)) := by
  have hpartition : (decl.members.map c.node).partition isStoredProperty =
      Prod.map (List.map c.node) (List.map c.node)
        (decl.members.partition isStoredProperty) := by
    rw [List.partition_eq_filter_filter, List.partition_eq_filter_filter, List.filter_map,
      List.filter_map]
    simp [Function.comp_def]
  unfold dataClass
  simp only [TypeDecl.map, hpartition]
  refine Parallel.bind (f := Prod.map (List.map (Kotlin.Param.map c.made))
      (Members.relocate c.move)) (Parallel.inBlock ?_) fun _ => parallel_types.bind fun types =>
        .pure ?_
  · exact (Parallel.surrounded _ (parallel_constructorProperties below _)).bind fun _ =>
      (parallel_members below _ _).inside.bind fun _ => .pure rfl
  · have hsupertypes := supertypes_relocate c.move types decl []
    simp only [TypeDecl.map] at hsupertypes
    simp [Kotlin.ClassDef.map, hsupertypes]

theorem parallel_classWithEquality (decl : TypeDecl Node) :
    ParallelNode c 0 (classWithEquality descent decl range)
      (classWithEquality descent' (decl.map c.node) (c.move range)) := by
  have hstored : ((DeclaredTypes.storedProperties (decl.map c.node)).map
      (identifier ·.name)) = (DeclaredTypes.storedProperties decl).map (identifier ·.name) := by
    simp [Swift.VariableDecl.map]
  unfold classWithEquality
  rw [hstored]
  refine (parallel_report _ range).bind fun _ => (parallel_members below _ _).bind fun members =>
    parallel_types.bind fun types => .pure ?_
  have hequality (name : String) (stored : List String) :
      { members.relocate c.move with
        instances := (members.relocate c.move).instances ++
          [equalsMember name stored (c.move range), hashCodeMember stored (c.move range)] } =
        Members.relocate c.move { members with
          instances := members.instances ++
            [equalsMember name stored range, hashCodeMember stored range] } := by
    simp [Members.relocate]
  simp only [supertypes_relocate, Kotlin.Node.relocate_mk, Kotlin.Construct.map, hequality,
    Members.nodes_relocate]
  rfl

theorem parallel_structDecl (decl : TypeDecl Node) :
    ParallelNode c 0 (structDecl descent decl range)
      (structDecl descent' (decl.map c.node) (c.move range)) := by
  refine parallel_types.bind fun types => ?_
  have hform : structForm (((types.relocate c.move).struct? decl.name).getD
      (decl.map c.node)) = structForm ((types.struct? decl.name).getD decl) := by
    rw [DeclaredTypes.struct?_relocate]
    cases types.struct? decl.name <;> simp
  dsimp only [Swift.TypeDecl.map] at hform ⊢
  rw [hform]
  cases structForm ((types.struct? decl.name).getD decl) with
  | dataClass => exact parallel_dataClass below range decl
  | classWithEquality => exact parallel_classWithEquality below range decl

theorem parallel_classDecl (decl : TypeDecl Node) :
    ParallelNode c 0 (classDecl descent decl range)
      (classDecl descent' (decl.map c.node) (c.move range)) := by
  refine parallel_types.bind fun types => (parallel_members below _ _).bind fun members => .pure ?_
  simp only [supertypes_relocate, DeclaredTypes.isSubclassed_relocate, Kotlin.Node.relocate_mk,
    Kotlin.Construct.map, Members.nodes_relocate]
  rfl

theorem parallel_protocolDecl (decl : TypeDecl Node) :
    ParallelNode c 0 (protocolDecl descent decl range)
      (protocolDecl descent' (decl.map c.node) (c.move range)) := by
  refine (parallel_members below _ _).bind fun members => .pure ?_
  simp [Kotlin.ClassDef.map, TypeDecl.map]

theorem parallel_extensionMember (node : Node) :
    ParallelNodes c 1 (extensionMember descent node) (extensionMember descent' (c.node node)) := by
  unfold extensionMember
  rw [isNestedType_relocate]
  exact .ite (Parallel.surrounded _ (below.statement node)) (below.statement node)

theorem parallel_extensionDecl (extended : String) (nodes) :
    ParallelNodes c 0 (extensionDecl descent extended nodes range)
      (extensionDecl descent' extended (nodes.map c.node) (c.move range)) := by
  have hrest : ParallelNodes c 0
      (do
        let receiver ← extensionReceiver extended range
        withScope (.extension receiver extended) <| inBlock do
          return (← nodes.mapM (extensionMember descent)).flatten)
      (do
        let receiver ← extensionReceiver extended (c.move range)
        withScope (.extension receiver extended) <| inBlock do
          return (← (nodes.map c.node).mapM (extensionMember descent')).flatten) :=
    (parallel_extensionReceiver range extended).bind fun _ =>
      Parallel.surrounded _ (Parallel.inBlock
        ((Parallel.mapM nodes (parallel_extensionMember below)).bind fun _ =>
          .pure List.map_flatten.symm))
  refine parallel_types.bind fun types => ?_
  rw [DeclaredTypes.isProtocol_relocate]
  exact .ite ((parallel_report _ _).bind fun _ => hrest) hrest

end TypeBody

/-! ## Enums -/

namespace Enum

theorem placedCases_relocate (move) (decl : TypeDecl Node) :
    placedCases (decl.map (Node.relocate move)).members =
      (placedCases decl.members).map (Prod.map (EnumCaseDecl.map (Node.relocate move)) move) := by
  unfold placedCases TypeDecl.map
  rw [List.filterMap_map, List.map_filterMap]
  congr 1
  funext node
  simp only [Function.comp_apply, Node.construct_relocate, Node.range_relocate]
  cases node.construct <;> rfl

theorem filter_isEnumCase_relocate (move) (decl : TypeDecl Node) :
    (decl.map (Node.relocate move)).members.filter (!isEnumCase ·) =
      (decl.members.filter (!isEnumCase ·)).map (Node.relocate move) := by
  unfold TypeDecl.map
  rw [List.filter_map]
  simp [Function.comp_def]

@[simp] theorem relocate_integerLiteral (move) (n : Int) :
    (integerLiteral n range).relocate move = integerLiteral n (move range) := by
  unfold integerLiteral
  split <;> simp

theorem parallel_caseField {blocks : Nat} (param) :
    Parallel c blocks (Kotlin.Param.map c.made) (caseField range param)
      (caseField (c.move range) (param.map c.node)) :=
  (parallel_lowerTy _ range).bind fun _ => .pure (by simp [Kotlin.Param.map, Swift.Param.map])

theorem parallel_caseClass (enum : String) (case) :
    ParallelNode c blocks (caseClass enum case range)
      (caseClass enum (case.map c.node) (c.move range)) := by
  refine (parallel_nameCase _ _ _).bind fun _ =>
    (Parallel.mapM case.params (parallel_caseField range)).bind fun _ => .pure ?_
  simp only [EnumCaseDecl.map, List.isEmpty_map, Kotlin.Node.relocate_mk, Kotlin.Construct.map]
  rfl

include below

theorem parallel_rawValue (rawType : String) (next case) :
    Parallel c 0 (Prod.map (List.map c.made) id)
      (rawValue descent rawType next case range)
      (rawValue descent' rawType next (case.map c.node) (c.move range)) := by
  unfold rawValue EnumCaseDecl.map
  cases case.rawValue with
  | some value => exact (below.value value).bind fun _ => .pure (by simp)
  | none =>
    refine .ite (.pure (by simp)) ?_
    cases next with
    | none => exact .pure rfl
    | some n => exact .pure (by simp)

theorem parallel_entries (enum : String) (rawType next cases) :
    Parallel c 0 (List.map (Kotlin.EnumEntry.map c.made))
      (entries descent enum rawType next cases)
      (entries descent' enum rawType next
        (cases.map (Prod.map (EnumCaseDecl.map c.node) c.move))) := by
  induction cases generalizing next with
  | nil => exact .pure rfl
  | cons first rest ih =>
    obtain ⟨case, range⟩ := first
    refine (parallel_nameCase _ _ _).bind fun _ => ?_
    cases rawType with
    | some rawType =>
      exact (parallel_rawValue below range rawType next case).bind fun _ =>
        (ih _).bind fun _ => .pure rfl
    | none =>
      exact Parallel.bind (f := Prod.map (List.map c.made) id) (.pure rfl)
        fun _ => (ih _).bind fun _ => .pure rfl

theorem parallel_enumClass (decl : TypeDecl Node) :
    ParallelNode c 0 (enumClass descent decl range)
      (enumClass descent' (decl.map c.node) (c.move range)) := by
  have hparams (rawType : Option String) :
      (rawType.toList.map rawValueParam).map (Kotlin.Param.map c.made) =
        rawType.toList.map rawValueParam := by
    cases rawType <;> rfl
  unfold enumClass
  rw [placedCases_relocate, filter_isEnumCase_relocate]
  refine (parallel_entries below _ _ _ _).bind fun _ =>
    (TypeBody.parallel_members below _ _).bind fun members => parallel_types.bind fun types =>
      .pure ?_
  simp only [Kotlin.Node.relocate_mk, Kotlin.Construct.map, Kotlin.ClassDef.map, hparams,
    TypeBody.supertypes_relocate, TypeBody.Members.nodes_relocate]
  rfl

theorem parallel_sealedClass (decl : TypeDecl Node) :
    ParallelNode c 0 (sealedClass descent decl range)
      (sealedClass descent' (decl.map c.node) (c.move range)) := by
  unfold sealedClass
  rw [placedCases_relocate, filter_isEnumCase_relocate]
  refine (Parallel.mapM _ fun entry => parallel_caseClass entry.2 decl.name entry.1).bind fun _ =>
    (TypeBody.parallel_members below _ _).bind fun members => parallel_types.bind fun types =>
      .pure ?_
  simp only [Kotlin.Node.relocate_mk, Kotlin.Construct.map, Kotlin.ClassDef.map,
    TypeBody.supertypes_relocate, TypeBody.Members.nodes_relocate, List.map_append]
  rfl

theorem parallel_enumDecl (decl : TypeDecl Node) :
    ParallelNode c 0 (enumDecl descent decl range)
      (enumDecl descent' (decl.map c.node) (c.move range)) := by
  refine parallel_types.bind fun types => ?_
  have hform : enumForm (((types.relocate c.move).enum? decl.name).getD
      (decl.map c.node)) = enumForm ((types.enum? decl.name).getD decl) := by
    rw [DeclaredTypes.enum?_relocate]
    cases types.enum? decl.name <;> simp
  dsimp only [Swift.TypeDecl.map] at hform ⊢
  rw [hform]
  cases enumForm ((types.enum? decl.name).getD decl) with
  | enumClass => exact parallel_enumClass below range decl
  | sealedClass => exact parallel_sealedClass below range decl

end Enum

/-! ## Programs -/

theorem parallel_importModule {blocks : Nat} (name : String) :
    ParallelNodes c blocks (importModule name range) (importModule name (c.move range)) :=
  parallel_read.bind fun _ => .ite (.pure rfl) (.pure (by simp))

include below

theorem parallel_typeDecl (kind : Swift.TypeKind) (decl : TypeDecl Node) :
    ParallelNode c 0 (typeDecl descent kind decl range)
      (typeDecl descent' kind (decl.map c.node) (c.move range)) := by
  cases kind with
  | structType => exact TypeBody.parallel_structDecl below range decl
  | classType => exact TypeBody.parallel_classDecl below range decl
  | protocolType => exact TypeBody.parallel_protocolDecl below range decl
  | enumType => exact Enum.parallel_enumDecl below range decl

theorem parallel_unknown (kind : String) (children) :
    ParallelNodes c 1 (unknown descent kind children range)
      (unknown descent' kind (children.map c.node) (c.move range)) := by
  have hchildren : (children.map c.node).filter
      (fun child => !child.construct.tag.isExpression) =
        (children.filter fun child => !child.construct.tag.isExpression).map
          c.node := by
    rw [List.filter_map]
    simp only [Function.comp_def, Node.construct_relocate, Swift.Construct.tag_carry]
  unfold unknown
  rw [hchildren]
  refine (parallel_sequence below _).bind fun _ => .pure ?_
  simp [Expression.unknownComment]

theorem parallel_lowerStatement (node : Node) :
    ParallelNodes c 1 (lowerStatement descent node)
      (lowerStatement descent' (node.relocate c.move)) := by
  have one {first second : Lower Kotlin.Node} (h : ParallelNode c 1 first second) :
      ParallelNodes c 1 (do return [← first]) (do return [← second]) :=
    h.bind fun _ => .pure rfl
  obtain ⟨construct, range⟩ := node
  have hvalue := one (Expression.parallel_lower below ⟨construct, range⟩).inside
  rw [Node.relocate_mk] at hvalue ⊢
  cases construct with
  | file items =>
    exact (parallel_statements below items).inside.bind fun _ => .pure (by simp)
  | importModule name => exact parallel_importModule _ _
  | function decl => exact one (Function.parallel_function below range decl).inside
  | initializer params body => exact one (Function.parallel_initializer below _ _ _).inside
  | variableDecl decl => exact one (Function.parallel_variableDecl below _ _)
  | typeDecl kind decl => exact one (parallel_typeDecl below _ _ _).inside
  | enumCase case => exact one (parallel_refuse _ _)
  | extensionDecl extended members => exact (TypeBody.parallel_extensionDecl below _ _ _).inside
  | typeAlias name ty => exact (parallel_lowerTy ty range).bind fun _ => .pure (by simp)
  | block items => exact one (Statement.parallel_block below _ _).inside
  | returnStmt value => exact one (Statement.parallel_returnStmt below _ _).inside
  | ifStmt condition thenBranch elseBranch => exact one (Statement.parallel_ifStmt below _ _ _ _)
  | guardStmt condition elseBranch => exact Statement.parallel_guardStmt below _ _ _
  | whileStmt condition body => exact one (Statement.parallel_whileStmt below _ _ _).inside
  | repeatWhile body condition => exact one (Statement.parallel_repeatWhile below _ _ _).inside
  | forEach binder sequence body => exact one (Statement.parallel_forEach below _ _ _ _).inside
  | switchStmt subject cases =>
    have hswitch := Statement.parallel_switchStmt below range subject cases
    simp only [Swift.Construct.carry, Swift.Construct.map, Swift.Construct.relocate, List.map_map]
    exact one hswitch.inside
  | breakStmt => exact one (Statement.parallel_breakStmt _)
  | continueStmt => exact .pure (by simp)
  | throwStmt value => exact (below.value value).inside.bind fun _ => .pure (by simp)
  | deferStmt body => exact one (parallel_refuse _ _)
  | doCatch body catches =>
    have htry := Statement.parallel_doCatch below range body catches
    simp only [Swift.Construct.carry, Swift.Construct.map, Swift.Construct.relocate, List.map_map]
    exact one htry.inside
  | assign target value => exact one (Statement.parallel_assign below _ _ _).inside
  | binary operator lhs rhs =>
    exact .ite (one (Statement.parallel_compoundAssign below _ _ _ _).inside) hvalue
  | invalid kind flaw => exact .pure (by simp [Expression.invalidComment])
  | unknown kind children => exact parallel_unknown below _ _ _
  | _ => exact hvalue

/-- What lowers the next layer of the two trees runs side by side as well. -/
theorem Correspondence.Below.above : c.Below descent.above descent'.above :=
  ⟨parallel_lowerStatement below, Expression.parallel_lower below⟩

omit below in
/-- Runs of a correspondence stay side by side on trees of any height. -/
theorem descend_parallel (c : Correspondence) (height : Nat) :
    c.Below (descend height) (descend height) := by
  induction height with
  | zero =>
    refine ⟨fun _ => .pure rfl, fun node => .pure ?_⟩
    rw [Kotlin.Node.relocate_reference, Node.range_relocate]
  | succ height ih => exact ih.above

end SwiftToKotlin.Lowering
