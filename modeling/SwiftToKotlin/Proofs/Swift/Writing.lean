import SwiftToKotlin.Proofs.Swift.TyNotation
import SwiftToKotlin.Swift.OfDump

/-!
# Writing a Swift tree as a dump

Every construct has a node in the dump: its kind, its attributes and its children follow the
catalogue. Types are written in their notation, flags as attributes without a value, and a missing
label as `_`; lists of parameters, bodies, cases and the like are nodes of their own.
-/

namespace SwiftToKotlin.Swift

/-! ## Attributes and helping nodes -/

namespace Writing

def flag (name : String) (isSet : Bool) : List (String × String) :=
  if isSet then [(name, "")] else []

def optionalAttr (name : String) (value : Option String) : List (String × String) :=
  match value with
  | some value => [(name, value)]
  | none => []

def optionalTy (name : String) (ty : Option Ty) : List (String × String) :=
  optionalAttr name (ty.map Ty.display)

def label (label : Option String) : String × String :=
  ("label", label.getD "_")

def inherited (names : List String) : List (String × String) :=
  if names.isEmpty then [] else [("inherits", String.intercalate ", " names)]

def braces (items : List Dump.Node) : Dump.Node :=
  ⟨"brace_stmt", [], items, none⟩

def optionalBraces (body : Option (List Dump.Node)) : List Dump.Node :=
  (body.map braces).toList

def param (param : Param Dump.Node) : Dump.Node :=
  ⟨"parameter", [("name", param.name), ("type", param.ty.display), label param.label],
    param.defaultValue.toList, none⟩

def closureParam (name : String) : Dump.Node :=
  ⟨"parameter", [("name", name)], [], none⟩

/-- A list of parameters is there if there are any. -/
def paramList (params : List Dump.Node) : List Dump.Node :=
  if params.isEmpty then [] else [⟨"parameter_list", [], params, none⟩]

def accessorKind : AccessorKind → String
  | .get => "get"
  | .set => "set"

def accessor (accessor : Accessor Dump.Node) : Dump.Node :=
  ⟨"accessor_decl", [("kind", accessorKind accessor.kind)], optionalBraces accessor.body, none⟩

def condition : Condition Dump.Node → Dump.Node
  | .expr value => value
  | .binding name value range => ⟨"optional_binding", [("name", name)], [value], range⟩

/-- A case without patterns is the default case. -/
def switchCase (case : SwitchCase Dump.Node) : Dump.Node :=
  ⟨"case_stmt", flag "default" case.patterns.isEmpty, case.patterns ++ [braces case.body],
    case.range⟩

def catchClause (clause : CatchClause Dump.Node) : Dump.Node :=
  ⟨"catch_stmt", optionalAttr "name" clause.name ++ optionalTy "type" clause.ty,
    [braces clause.body], clause.range⟩

def argument (argument : Argument Dump.Node) : Dump.Node :=
  ⟨"argument", [label argument.label], [argument.value], none⟩

def typeKind : TypeKind → String
  | .structType => "struct_decl"
  | .classType => "class_decl"
  | .protocolType => "protocol_decl"
  | .enumType => "enum_decl"

def literalKind : Literal → String
  | .integer _ => "integer_literal_expr"
  | .float _ => "float_literal_expr"
  | .boolean _ => "boolean_literal_expr"
  | .string _ => "string_literal_expr"
  | .nil => "nil_literal_expr"

def literalAttributes : Literal → List (String × String)
  | .integer text => [("value", text)]
  | .float text => [("value", text)]
  | .boolean value => [("value", if value then "true" else "false")]
  | .string text => [("value", text)]
  | .nil => []

def wrapperKind : Wrapper → String
  | .paren => "paren_expr"
  | .forceUnwrap => "force_value_expr"
  | .bindOptional => "bind_optional_expr"
  | .optionalEvaluation => "optional_evaluation_expr"
  | .tryExpr => "try_expr"
  | .optionalTry => "optional_try_expr"

def castKind : CastKind → String
  | .coerce => "coerce_expr"
  | .conditional => "conditional_checked_cast_expr"
  | .forced => "forced_checked_cast_expr"
  | .check => "is_expr"

end Writing

/-! ## The node of a construct -/

namespace Construct

variable {α β : Type}

open Writing

def dumpKind : Construct α → String
  | file _ => "source_file"
  | importModule _ => "import_decl"
  | function _ => "func_decl"
  | initializer _ _ => "constructor_decl"
  | variableDecl _ => "var_decl"
  | typeDecl kind _ => typeKind kind
  | enumCase _ => "enum_element_decl"
  | extensionDecl _ _ => "extension_decl"
  | typeAlias _ _ => "typealias_decl"
  | block _ => "brace_stmt"
  | returnStmt _ => "return_stmt"
  | ifStmt _ _ _ => "if_stmt"
  | guardStmt _ _ => "guard_stmt"
  | whileStmt _ _ => "while_stmt"
  | repeatWhile _ _ => "repeat_while_stmt"
  | forEach _ _ _ => "for_each_stmt"
  | switchStmt _ _ => "switch_stmt"
  | breakStmt => "break_stmt"
  | continueStmt => "continue_stmt"
  | throwStmt _ => "throw_stmt"
  | deferStmt _ => "defer_stmt"
  | doCatch _ _ => "do_catch_stmt"
  | literal value => literalKind value
  | interpolated _ => "interpolated_string_literal_expr"
  | reference _ _ => "declref_expr"
  | binary _ _ _ => "binary_expr"
  | prefixUnary _ _ => "prefix_unary_expr"
  | assign _ _ => "assign_expr"
  | call _ _ => "call_expr"
  | member _ _ => "member_ref_expr"
  | implicitMember _ _ => "implicit_member_expr"
  | subscript _ _ => "subscript_expr"
  | arrayLiteral _ => "array_expr"
  | dictionaryLiteral _ => "dictionary_expr"
  | tuple _ => "tuple_expr"
  | closure _ _ => "closure_expr"
  | ternary _ _ _ => "ternary_expr"
  | wrapped form _ => wrapperKind form
  | cast kind _ _ => castKind kind
  | invalid kind _ => kind
  | unknown kind _ => kind

def dumpAttributes : Construct α → List (String × String)
  | importModule name => [("module", name)]
  | function decl =>
    ("name", decl.name) :: (optionalTy "result" decl.result ++ flag "static" decl.isStatic ++
      flag "mutating" decl.isMutating ++ flag "throws" decl.throws ++
        flag "override" decl.isOverride)
  | variableDecl decl =>
    ("name", decl.name) :: (optionalTy "type" decl.ty ++ flag "let" decl.isLet ++
      flag "static" decl.isStatic)
  | typeDecl _ decl => ("name", decl.name) :: inherited decl.inherits
  | enumCase decl => [("name", decl.name)]
  | extensionDecl extended _ => [("type", extended)]
  | typeAlias name ty => [("name", name), ("type", ty.display)]
  | forEach binder _ _ => [("variable", binder)]
  | literal value => literalAttributes value
  | reference name ty => ("name", name) :: optionalTy "type" ty
  | binary operator _ _ => [("operator", operator)]
  | prefixUnary operator _ => [("operator", operator)]
  | member _ name => [("name", name)]
  | implicitMember name ty => ("name", name) :: optionalTy "type" ty
  | cast _ _ ty => [("type", ty.display)]
  | _ => []

def dumpChildren : Construct Dump.Node → List Dump.Node
  | file items => items
  | function decl => paramList (decl.params.map param) ++ optionalBraces decl.body
  | initializer params body => paramList (params.map param) ++ optionalBraces body
  | variableDecl decl => decl.init.toList ++ decl.accessors.map accessor
  | typeDecl _ decl => decl.members
  | enumCase decl => paramList (decl.params.map param) ++ decl.rawValue.toList
  | extensionDecl _ members => members
  | block items => items
  | returnStmt value => value.toList
  | ifStmt test thenBranch elseBranch => condition test :: braces thenBranch :: elseBranch.toList
  | guardStmt test elseBranch => [condition test, braces elseBranch]
  | whileStmt test body => [test, braces body]
  | repeatWhile body test => [braces body, test]
  | forEach _ sequence body => [sequence, braces body]
  | switchStmt subject cases => subject :: cases.map switchCase
  | throwStmt value => [value]
  | deferStmt body => [braces body]
  | doCatch body catches => braces body :: catches.map catchClause
  | interpolated segments => segments
  | binary _ lhs rhs => [lhs, rhs]
  | prefixUnary _ operand => [operand]
  | assign target value => [target, value]
  | call callee arguments => callee :: arguments.map argument
  | member base _ => [base]
  | subscript base index => [base, index]
  | arrayLiteral items => items
  | dictionaryLiteral entries => entries.flatMap fun (key, value) => [key, value]
  | tuple items => items
  | closure params body => paramList (params.map closureParam) ++ [braces body]
  | ternary test thenValue elseValue => [test, thenValue, elseValue]
  | wrapped _ inner => [inner]
  | cast _ value _ => [value]
  | unknown _ children => children
  | _ => []

attribute [grind =] dumpAttributes dumpChildren

/-- The node of the dump, from those of the parts. -/
def toDump (range : Option SourceRange) (construct : Construct Dump.Node) : Dump.Node :=
  ⟨construct.dumpKind, construct.dumpAttributes, construct.dumpChildren, range⟩

theorem dumpKind_map (f : α → β) (construct : Construct α) :
    (construct.map f).dumpKind = construct.dumpKind := by
  cases construct <;> rfl

end Construct

/-- The dump of a tree. -/
def Node.toDump (node : Node) : Dump.Node :=
  node.fold fun construct range => construct.toDump range

theorem Node.toDump_mk (construct range) :
    toDump ⟨construct, range⟩ = (construct.map toDump).toDump range := by
  rw [toDump, fold_mk]
  rfl

theorem Node.kind_toDump (node : Node) : node.toDump.kind = node.construct.dumpKind := by
  obtain ⟨construct, range⟩ := node
  rw [toDump_mk]
  exact construct.dumpKind_map toDump

end SwiftToKotlin.Swift
