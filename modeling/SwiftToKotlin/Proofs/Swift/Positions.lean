import SwiftToKotlin.Swift.Node

/-!
# Positions of statements and of values

Each part of a construct stands either where a statement or declaration is expected, or where a
value is. A node stands in a tree in a role if some node of the tree has it as a part there.
-/

namespace SwiftToKotlin.Swift

/-- What is expected of a part. -/
inductive Role
  | statement
  | value
  deriving DecidableEq

variable {α β : Type}

def asStatements (parts : List α) : List (Role × α) :=
  parts.map (Role.statement, ·)

def asValues (parts : List α) : List (Role × α) :=
  parts.map (Role.value, ·)

theorem mem_map_role {parts : List α} {role kind : Role} {part : α} :
    (role, part) ∈ parts.map (kind, ·) ↔ role = kind ∧ part ∈ parts := by
  simp only [List.mem_map, Prod.mk.injEq]
  constructor
  · rintro ⟨a, ha, rfl, rfl⟩
    exact ⟨rfl, ha⟩
  · rintro ⟨rfl, hpart⟩
    exact ⟨part, hpart, rfl, rfl⟩

@[simp] theorem mem_asStatements {parts : List α} {role : Role} {part : α} :
    (role, part) ∈ asStatements parts ↔ role = .statement ∧ part ∈ parts :=
  mem_map_role

@[simp] theorem mem_asValues {parts : List α} {role : Role} {part : α} :
    (role, part) ∈ asValues parts ↔ role = .value ∧ part ∈ parts :=
  mem_map_role

/-- The parts of a construct with what is expected of them. -/
@[simp] def Construct.positions : Construct α → List (Role × α)
  | file items => asStatements items
  | importModule _ => []
  | function decl => asValues (decl.params.flatMap Param.parts) ++ asStatements (decl.body.getD [])
  | initializer params body => asValues (params.flatMap Param.parts) ++ asStatements (body.getD [])
  | variableDecl decl =>
    asValues decl.init.toList ++ asStatements (decl.accessors.flatMap Accessor.parts)
  | typeDecl _ decl => asStatements decl.members
  | enumCase decl => asValues (decl.params.flatMap Param.parts ++ decl.rawValue.toList)
  | extensionDecl _ members => asStatements members
  | typeAlias _ _ => []
  | block items => asStatements items
  | returnStmt value => asValues value.toList
  | ifStmt condition thenBranch elseBranch =>
    asValues condition.parts ++ asStatements (thenBranch ++ elseBranch.toList)
  | guardStmt condition elseBranch => asValues condition.parts ++ asStatements elseBranch
  | whileStmt condition body => asValues [condition] ++ asStatements body
  | repeatWhile body condition => asStatements body ++ asValues [condition]
  | forEach _ sequence body => asValues [sequence] ++ asStatements body
  | switchStmt subject cases =>
    asValues [subject] ++ cases.flatMap fun case => asValues case.patterns ++ asStatements case.body
  | breakStmt => []
  | continueStmt => []
  | throwStmt value => asValues [value]
  | deferStmt body => asStatements body
  | doCatch body catches => asStatements (body ++ catches.flatMap CatchClause.body)
  | literal _ => []
  | interpolated segments => asValues segments
  | reference _ _ => []
  | binary _ lhs rhs => asValues [lhs, rhs]
  | prefixUnary _ operand => asValues [operand]
  | assign target value => asValues [target, value]
  | call callee arguments => asValues (callee :: arguments.map Argument.value)
  | member base _ => asValues [base]
  | implicitMember _ _ => []
  | subscript base index => asValues [base, index]
  | arrayLiteral items => asValues items
  | dictionaryLiteral entries => asValues (entries.flatMap fun (k, v) => [k, v])
  | tuple items => asValues items
  | closure _ body => asStatements body
  | ternary condition thenValue elseValue => asValues [condition, thenValue, elseValue]
  | wrapped _ inner => asValues [inner]
  | cast _ value _ => asValues [value]
  | invalid _ _ => []
  | unknown _ children => asStatements children

/-- Every part has one position, and nothing else has. -/
theorem Construct.map_snd_positions (construct : Construct α) :
    construct.positions.map Prod.snd = construct.parts := by
  have hstatements (parts : List α) : (asStatements parts).map Prod.snd = parts := by
    simp [asStatements, Function.comp_def]
  have hvalues (parts : List α) : (asValues parts).map Prod.snd = parts := by
    simp [asValues, Function.comp_def]
  cases construct with
  | switchStmt subject cases =>
    simp only [positions, parts, List.map_append, List.map_flatMap, hstatements, hvalues]
    rfl
  | _ => simp [parts, hstatements, hvalues]

theorem Construct.mem_parts_of_mem_positions {construct : Construct α} {role : Role} {part : α}
    (h : (role, part) ∈ construct.positions) : part ∈ construct.parts := by
  rw [← map_snd_positions]
  exact List.mem_map_of_mem h

/-! ## The parts of a layer over other parts -/

theorem Param.parts_map (f : α → β) (param : Param α) :
    (param.map f).parts = param.parts.map f := by
  cases h : param.defaultValue <;> simp [Param.map, Param.parts, h]

theorem Accessor.parts_map (f : α → β) (accessor : Accessor α) :
    (accessor.map f).parts = accessor.parts.map f := by
  cases h : accessor.body <;> simp [Accessor.map, Accessor.parts, h]

theorem Condition.parts_map (f : α → β) (condition : Condition α) :
    (condition.map f).parts = condition.parts.map f := by
  cases condition <;> rfl

theorem SwitchCase.parts_map (f : α → β) (case : SwitchCase α) :
    (case.map f).parts = case.parts.map f := by
  simp [SwitchCase.map, SwitchCase.parts]

theorem bodyMap_getD (f : α → β) (body : Option (List α)) :
    (body.map (List.map f)).getD [] = (body.getD []).map f := by
  cases body <;> rfl

attribute [local simp] Construct.map Construct.parts List.flatMap_map List.map_flatMap
  Option.toList_map in
theorem Construct.parts_map (f : α → β) (construct : Construct α) :
    (construct.map f).parts = construct.parts.map f := by
  cases construct with
  | function decl =>
    simp [FunctionDecl.map, bodyMap_getD, Param.parts_map]
  | initializer =>
    simp [bodyMap_getD, Param.parts_map]
  | variableDecl decl =>
    simp [VariableDecl.map, Accessor.parts_map]
  | enumCase decl =>
    simp [EnumCaseDecl.map, Param.parts_map]
  | switchStmt subject cases =>
    simp [SwitchCase.parts_map]
  | doCatch body catches =>
    simp [CatchClause.map]
  | _ =>
    simp [TypeDecl.map, Condition.parts_map, Argument.map]

/-! ## Induction over trees -/

theorem le_foldl_max {values : List Nat} (h : value ∈ values) (start : Nat) :
    value ≤ values.foldl max start := by
  rw [List.foldl_max]
  exact Nat.le_trans (List.le_max?_getD_of_mem h) (Nat.le_max_right _ _)

theorem Node.height_lt_of_mem_parts {construct : Construct Node} {part : Node}
    (hpart : part ∈ construct.parts) (range : Option SourceRange) :
    part.height < height ⟨construct, range⟩ := by
  have hheight : height ⟨construct, range⟩ = (construct.parts.map height).foldl max 0 + 1 := by
    rw [height, fold_mk, Construct.parts_map]
    rfl
  have hle := le_foldl_max (List.mem_map_of_mem (f := height) hpart) 0
  omega

/-- What holds of a node as soon as it holds of its parts holds of every tree. -/
theorem Node.induction {motive : Node → Prop}
    (step : ∀ construct range, (∀ part ∈ construct.parts, motive part) →
      motive ⟨construct, range⟩) (node : Node) : motive node := by
  induction h : node.height using Nat.strongRecOn generalizing node with
  | _ height ih =>
    obtain ⟨construct, range⟩ := node
    exact step construct range fun part hpart =>
      ih part.height (h ▸ height_lt_of_mem_parts hpart range) part rfl

/-! ## What stands in a tree -/

namespace Node

/-- Some node of the tree has this one as a part in a position of the role. -/
inductive StandsIn (part : Node) (role : Role) : Node → Prop
  | here (h : (role, part) ∈ whole.construct.positions) : StandsIn part role whole
  | deeper {inner : Node} (hinner : inner ∈ whole.construct.parts)
      (h : StandsIn part role inner) : StandsIn part role whole

variable {part whole : Node}

theorem height_pos (node : Node) : 0 < node.height := by
  obtain ⟨construct, range⟩ := node
  simp [height]

theorem height_lt_of_part (h : part ∈ whole.construct.parts) : part.height < whole.height := by
  obtain ⟨construct, range⟩ := whole
  exact height_lt_of_mem_parts h range

theorem StandsIn.height_lt (h : part.StandsIn role whole) : part.height < whole.height := by
  induction h with
  | here h => exact height_lt_of_part (Construct.mem_parts_of_mem_positions h)
  | deeper hinner _ ih => exact Nat.lt_trans ih (height_lt_of_part hinner)

/-- What stands in a part stands in the whole. -/
theorem StandsIn.trans (h : part.StandsIn role middle) (h' : middle.StandsIn outer whole) :
    part.StandsIn role whole := by
  induction h' with
  | here h' => exact .deeper (Construct.mem_parts_of_mem_positions h') h
  | deeper hinner _ ih => exact .deeper hinner ih

/-- What parts inherit, everything that stands in a tree inherits. -/
theorem StandsIn.inherits {P : Node → Prop}
    (hparts : ∀ whole, P whole → ∀ part ∈ whole.construct.parts, P part)
    (h : part.StandsIn role whole) (hwhole : P whole) : P part := by
  induction h with
  | here h => exact hparts _ hwhole _ (Construct.mem_parts_of_mem_positions h)
  | deeper hinner _ ih => exact ih (hparts _ hwhole _ hinner)

end Node

end SwiftToKotlin.Swift
