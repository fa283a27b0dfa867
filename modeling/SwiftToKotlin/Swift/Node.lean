import SwiftToKotlin.Swift.Construct

/-! # Swift syntax trees

A node is a construct over nodes with the place it comes from. Functions on trees are given by what
they do to one layer: `fold` is the only recursion.
-/

namespace SwiftToKotlin.Swift

structure Node where
  construct : Construct Node
  range : Option SourceRange

namespace Node

variable {β : Type} (alg : Construct β → Option SourceRange → β)

mutual

/-- The value of a tree, from the values of its parts upwards. -/
def fold : Node → β
  | ⟨construct, range⟩ => alg (foldConstruct construct) range

def foldConstruct : Construct Node → Construct β
  | .file items => .file (foldList items)
  | .importModule name => .importModule name
  | .function decl => .function (foldFunction decl)
  | .initializer params body => .initializer (foldParams params) (foldBody body)
  | .variableDecl decl => .variableDecl (foldVariable decl)
  | .typeDecl kind decl => .typeDecl kind (foldType decl)
  | .enumCase decl => .enumCase (foldEnumCase decl)
  | .extensionDecl extended members => .extensionDecl extended (foldList members)
  | .typeAlias name ty => .typeAlias name ty
  | .block items => .block (foldList items)
  | .returnStmt value => .returnStmt (foldOption value)
  | .ifStmt condition thenBranch elseBranch =>
    .ifStmt (foldCondition condition) (foldList thenBranch) (foldOption elseBranch)
  | .guardStmt condition elseBranch => .guardStmt (foldCondition condition) (foldList elseBranch)
  | .whileStmt condition body => .whileStmt (fold condition) (foldList body)
  | .repeatWhile body condition => .repeatWhile (foldList body) (fold condition)
  | .forEach binder sequence body => .forEach binder (fold sequence) (foldList body)
  | .switchStmt subject cases => .switchStmt (fold subject) (foldCases cases)
  | .breakStmt => .breakStmt
  | .continueStmt => .continueStmt
  | .throwStmt value => .throwStmt (fold value)
  | .deferStmt body => .deferStmt (foldList body)
  | .doCatch body catches => .doCatch (foldList body) (foldCatches catches)
  | .literal value => .literal value
  | .interpolated segments => .interpolated (foldList segments)
  | .reference name ty => .reference name ty
  | .binary operator lhs rhs => .binary operator (fold lhs) (fold rhs)
  | .prefixUnary operator operand => .prefixUnary operator (fold operand)
  | .assign target value => .assign (fold target) (fold value)
  | .call callee arguments => .call (fold callee) (foldArguments arguments)
  | .member base name => .member (fold base) name
  | .implicitMember name ty => .implicitMember name ty
  | .subscript base index => .subscript (fold base) (fold index)
  | .arrayLiteral items => .arrayLiteral (foldList items)
  | .dictionaryLiteral entries => .dictionaryLiteral (foldEntries entries)
  | .tuple items => .tuple (foldList items)
  | .closure params body => .closure params (foldList body)
  | .ternary condition thenValue elseValue =>
    .ternary (fold condition) (fold thenValue) (fold elseValue)
  | .wrapped form inner => .wrapped form (fold inner)
  | .cast kind value ty => .cast kind (fold value) ty
  | .invalid kind flaw => .invalid kind flaw
  | .unknown kind children => .unknown kind (foldList children)

def foldList : List Node → List β
  | [] => []
  | node :: rest => fold node :: foldList rest

def foldOption : Option Node → Option β
  | none => none
  | some node => some (fold node)

def foldBody : Option (List Node) → Option (List β)
  | none => none
  | some body => some (foldList body)

def foldParam : Param Node → Param β
  | ⟨label, name, ty, defaultValue⟩ => ⟨label, name, ty, foldOption defaultValue⟩

def foldParams : List (Param Node) → List (Param β)
  | [] => []
  | param :: rest => foldParam param :: foldParams rest

def foldFunction : FunctionDecl Node → FunctionDecl β
  | ⟨name, params, result, body, isStatic, isMutating, throws, isOverride⟩ =>
    ⟨name, foldParams params, result, foldBody body, isStatic, isMutating, throws, isOverride⟩

def foldAccessor : Accessor Node → Accessor β
  | ⟨kind, body⟩ => ⟨kind, foldBody body⟩

def foldAccessors : List (Accessor Node) → List (Accessor β)
  | [] => []
  | accessor :: rest => foldAccessor accessor :: foldAccessors rest

def foldVariable : VariableDecl Node → VariableDecl β
  | ⟨name, ty, isLet, isStatic, init, accessors⟩ =>
    ⟨name, ty, isLet, isStatic, foldOption init, foldAccessors accessors⟩

def foldType : TypeDecl Node → TypeDecl β
  | ⟨name, inherits, members⟩ => ⟨name, inherits, foldList members⟩

def foldEnumCase : EnumCaseDecl Node → EnumCaseDecl β
  | ⟨name, params, rawValue⟩ => ⟨name, foldParams params, foldOption rawValue⟩

def foldCondition : Condition Node → Condition β
  | .expr value => .expr (fold value)
  | .binding name value range => .binding name (fold value) range

def foldCase : SwitchCase Node → SwitchCase β
  | ⟨patterns, body, range⟩ => ⟨foldList patterns, foldList body, range⟩

def foldCases : List (SwitchCase Node) → List (SwitchCase β)
  | [] => []
  | case :: rest => foldCase case :: foldCases rest

def foldCatch : CatchClause Node → CatchClause β
  | ⟨name, ty, body, range⟩ => ⟨name, ty, foldList body, range⟩

def foldCatches : List (CatchClause Node) → List (CatchClause β)
  | [] => []
  | clause :: rest => foldCatch clause :: foldCatches rest

def foldArgument : Argument Node → Argument β
  | ⟨label, value⟩ => ⟨label, fold value⟩

def foldArguments : List (Argument Node) → List (Argument β)
  | [] => []
  | argument :: rest => foldArgument argument :: foldArguments rest

def foldEntry : Node × Node → β × β
  | (key, value) => (fold key, fold value)

def foldEntries : List (Node × Node) → List (β × β)
  | [] => []
  | entry :: rest => foldEntry entry :: foldEntries rest

end

/-! ## Folding is mapping, layer by layer -/

theorem foldList_eq_map (nodes : List Node) : foldList alg nodes = nodes.map (fold alg) := by
  induction nodes with
  | nil => simp [foldList]
  | cons node rest ih => simp [foldList, ih]

theorem foldOption_eq_map (node : Option Node) : foldOption alg node = node.map (fold alg) := by
  cases node <;> simp [foldOption]

theorem foldBody_eq_map (body : Option (List Node)) :
    foldBody alg body = body.map (List.map (fold alg)) := by
  cases body <;> simp [foldBody, foldList_eq_map]

theorem foldParams_eq_map (params : List (Param Node)) :
    foldParams alg params = params.map (Param.map (fold alg)) := by
  induction params with
  | nil => simp [foldParams]
  | cons param rest ih =>
    cases param
    simp [foldParams, foldParam, Param.map, foldOption_eq_map, ih]

theorem foldAccessors_eq_map (accessors : List (Accessor Node)) :
    foldAccessors alg accessors = accessors.map (Accessor.map (fold alg)) := by
  induction accessors with
  | nil => simp [foldAccessors]
  | cons accessor rest ih =>
    cases accessor
    simp [foldAccessors, foldAccessor, Accessor.map, foldBody_eq_map, ih]

theorem foldCases_eq_map (cases : List (SwitchCase Node)) :
    foldCases alg cases = cases.map (SwitchCase.map (fold alg)) := by
  induction cases with
  | nil => simp [foldCases]
  | cons case rest ih =>
    cases case
    simp [foldCases, foldCase, SwitchCase.map, foldList_eq_map, ih]

theorem foldCatches_eq_map (catches : List (CatchClause Node)) :
    foldCatches alg catches = catches.map (CatchClause.map (fold alg)) := by
  induction catches with
  | nil => simp [foldCatches]
  | cons clause rest ih =>
    cases clause
    simp [foldCatches, foldCatch, CatchClause.map, foldList_eq_map, ih]

theorem foldArguments_eq_map (arguments : List (Argument Node)) :
    foldArguments alg arguments = arguments.map (Argument.map (fold alg)) := by
  induction arguments with
  | nil => simp [foldArguments]
  | cons argument rest ih =>
    cases argument
    simp [foldArguments, foldArgument, Argument.map, ih]

theorem foldEntries_eq_map (entries : List (Node × Node)) :
    foldEntries alg entries = entries.map fun (k, v) => (fold alg k, fold alg v) := by
  induction entries with
  | nil => simp [foldEntries]
  | cons entry rest ih =>
    cases entry
    simp [foldEntries, foldEntry, ih]

theorem foldCondition_eq_map (condition : Condition Node) :
    foldCondition alg condition = condition.map (fold alg) := by
  cases condition <;> simp [foldCondition, Condition.map]

theorem foldConstruct_eq_map (construct : Construct Node) :
    foldConstruct alg construct = construct.map (fold alg) := by
  cases construct with
  | function decl =>
    cases decl
    simp [foldConstruct, Construct.map, foldFunction, FunctionDecl.map, foldParams_eq_map,
      foldBody_eq_map]
  | variableDecl decl =>
    cases decl
    simp [foldConstruct, Construct.map, foldVariable, VariableDecl.map, foldOption_eq_map,
      foldAccessors_eq_map]
  | typeDecl _ decl =>
    cases decl
    simp [foldConstruct, Construct.map, foldType, TypeDecl.map, foldList_eq_map]
  | enumCase decl =>
    cases decl
    simp [foldConstruct, Construct.map, foldEnumCase, EnumCaseDecl.map, foldParams_eq_map,
      foldOption_eq_map]
  | _ =>
    simp [foldConstruct, Construct.map, foldList_eq_map, foldOption_eq_map, foldBody_eq_map,
      foldParams_eq_map, foldCases_eq_map, foldCatches_eq_map, foldArguments_eq_map,
      foldEntries_eq_map, foldCondition_eq_map]

@[simp] theorem fold_mk (construct : Construct Node) (range : Option SourceRange) :
    fold alg ⟨construct, range⟩ = alg (construct.map (fold alg)) range := by
  rw [fold, foldConstruct_eq_map]

/-- The number of nodes on the longest way down. -/
def height (node : Node) : Nat :=
  node.fold fun construct _ => construct.parts.foldl max 0 + 1

end Node

end SwiftToKotlin.Swift
