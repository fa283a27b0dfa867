import SwiftToKotlin.Lowering.Enum

/-! # Lowering of programs

A Swift tree becomes a Kotlin tree and a list of diagnostics. Every construct is lowered from the
lowering of its parts, layer by layer.
-/

namespace SwiftToKotlin.Lowering

open Swift (Node)

variable (descent : Descent)

def typeDecl (kind : Swift.TypeKind) (decl : Swift.TypeDecl Node) (range : Option SourceRange) :
    Lower Kotlin.Node :=
  match kind with
  | .structType => TypeBody.structDecl descent decl range
  | .classType => TypeBody.classDecl descent decl range
  | .protocolType => TypeBody.protocolDecl descent decl range
  | .enumType => Enum.enumDecl descent decl range

def importModule (name : String) (range : Option SourceRange) : Lower (List Kotlin.Node) := do
  if (← read).droppedImports.contains name then return []
  else return [⟨.importModule name, range⟩]

/-- Of a node of an unknown kind the parts that are no expressions are still lowered. -/
def unknown (kind : String) (children : List Node) (range : Option SourceRange) :
    Lower (List Kotlin.Node) := do
  let rest ← descent.sequence (children.filter fun child => !child.construct.tag.isExpression)
  return Expression.unknownComment kind range :: rest

/-- A node in the place of a statement or declaration. -/
def lowerStatement (node : Node) : Lower (List Kotlin.Node) :=
  let range := node.range
  let one (action : Lower Kotlin.Node) : Lower (List Kotlin.Node) := do return [← action]
  match node.construct with
  | .file items => do return [⟨.file (← descent.statements items), range⟩]
  | .importModule name => importModule name range
  | .function decl => one (Function.function descent decl range)
  | .initializer params body => one (Function.initializer descent params body range)
  | .variableDecl decl => one (Function.variableDecl descent decl range)
  | .typeDecl kind decl => one (typeDecl descent kind decl range)
  | .enumCase case => one (refuse (.caseOutsideEnum case.name) range)
  | .extensionDecl extended members => TypeBody.extensionDecl descent extended members range
  | .typeAlias name ty => do
    return [⟨.typeAlias (identifier name) (← lowerTy ty range), range⟩]
  | .block items => one (Statement.block descent items range)
  | .returnStmt value => one (Statement.returnStmt descent value range)
  | .ifStmt condition thenBranch elseBranch =>
    one (Statement.ifStmt descent condition thenBranch elseBranch range)
  | .guardStmt condition elseBranch => Statement.guardStmt descent condition elseBranch range
  | .whileStmt condition body => one (Statement.whileStmt descent condition body range)
  | .repeatWhile body condition => one (Statement.repeatWhile descent body condition range)
  | .forEach binder sequence body => one (Statement.forEach descent binder sequence body range)
  | .switchStmt subject cases => one (Statement.switchStmt descent subject cases range)
  | .breakStmt => one (Statement.breakStmt range)
  | .continueStmt => pure [⟨.continueStmt, range⟩]
  | .throwStmt value => do return [⟨.throwStmt (← descent.value value), range⟩]
  | .deferStmt _ => one (refuse .deferStatement range)
  | .doCatch body catches => one (Statement.doCatch descent body catches range)
  | .assign target value => one (Statement.assign descent target value range)
  | .binary operator lhs rhs =>
    if isAssignmentOperator operator then
      one (Statement.compoundAssign descent operator lhs rhs range)
    else one (Expression.lower descent node)
  | .invalid kind flaw => pure [Expression.invalidComment kind flaw range]
  | .unknown kind children => unknown descent kind children range
  | _ => one (Expression.lower descent node)

/-- The lowering of trees of bounded height. -/
def descend : Nat → Descent
  | 0 => ⟨fun _ => pure [], fun node => pure (.reference "" node.range)⟩
  | height + 1 =>
    let below := descend height
    ⟨lowerStatement below, Expression.lower below⟩

/-- The file that the statements make up. -/
def fileOf (range : Option SourceRange) : List Kotlin.Node → Kotlin.Node
  | [⟨.file items, range⟩] => ⟨.file items, range⟩
  | nodes => ⟨.file nodes, range⟩

/-- Lowers a whole tree, with the diagnostics found so far and those added to them. -/
def lower (droppedImports : List String) (root : Node) (diagnostics : List Diagnostic) :
    Kotlin.Node × List Diagnostic :=
  let context : Context := { types := .ofTree root, droppedImports }
  let (nodes, state) := (((descend root.height).statement root).run context).run { diagnostics }
  (fileOf root.range nodes, state.diagnostics)

end SwiftToKotlin.Lowering
