import SwiftToKotlin.Swift.Construct

/-! # What kind of construct a node is -/

namespace SwiftToKotlin.Swift

inductive Tag
  | file
  | importModule
  | function
  | initializer
  | variableDecl
  | typeDecl (kind : TypeKind)
  | enumCase
  | extensionDecl
  | typeAlias
  | block
  | returnStmt
  | ifStmt
  | guardStmt
  | whileStmt
  | repeatWhile
  | forEach
  | switchStmt
  | breakStmt
  | continueStmt
  | throwStmt
  | deferStmt
  | doCatch
  | integerLiteral
  | floatLiteral
  | booleanLiteral
  | stringLiteral
  | interpolated
  | nilLiteral
  | reference
  | binary
  | prefixUnary
  | assign
  | call
  | member
  | implicitMember
  | subscript
  | arrayLiteral
  | dictionaryLiteral
  | tuple
  | closure
  | ternary
  | wrapped (form : Wrapper)
  | cast
  | invalid
  | unknown
  deriving DecidableEq

namespace Tag

def declarations : List Tag :=
  [file, importModule, function, initializer, variableDecl, typeDecl .structType,
    typeDecl .classType, typeDecl .protocolType, typeDecl .enumType, enumCase, extensionDecl,
    typeAlias]

def statements : List Tag :=
  [block, returnStmt, ifStmt, guardStmt, whileStmt, repeatWhile, forEach, switchStmt, breakStmt,
    continueStmt, throwStmt, deferStmt, doCatch]

def expressions : List Tag :=
  [integerLiteral, floatLiteral, booleanLiteral, stringLiteral, interpolated, nilLiteral,
    reference, binary, prefixUnary, assign, call, member, implicitMember, subscript, arrayLiteral,
    dictionaryLiteral, tuple, wrapped .paren, closure, ternary, wrapped .forceUnwrap,
    wrapped .bindOptional, wrapped .optionalEvaluation, cast, wrapped .tryExpr,
    wrapped .optionalTry]

/-- Tags of nodes that stand for something that could not be read. -/
def placeholders : List Tag :=
  [invalid, unknown]

def all : List Tag :=
  declarations ++ statements ++ expressions ++ placeholders

theorem mem_all (tag : Tag) : tag ∈ all := by
  cases tag with
  | typeDecl kind => cases kind <;> decide
  | wrapped form => cases form <;> decide
  | _ => decide

def isDeclaration (tag : Tag) : Bool :=
  declarations.contains tag

def isExpression (tag : Tag) : Bool :=
  expressions.contains tag

def isPlaceholder (tag : Tag) : Bool :=
  placeholders.contains tag

def label : Tag → String
  | file => "File"
  | importModule => "Import"
  | function => "Function"
  | initializer => "Initializer"
  | variableDecl => "Variable"
  | typeDecl .structType => "Struct"
  | typeDecl .classType => "Class"
  | typeDecl .protocolType => "Protocol"
  | typeDecl .enumType => "Enum"
  | enumCase => "Enum Case"
  | extensionDecl => "Extension"
  | typeAlias => "Type Alias"
  | block => "Block"
  | returnStmt => "Return"
  | ifStmt => "If"
  | guardStmt => "Guard"
  | whileStmt => "While"
  | repeatWhile => "Repeat While"
  | forEach => "For Each"
  | switchStmt => "Switch"
  | breakStmt => "Break"
  | continueStmt => "Continue"
  | throwStmt => "Throw"
  | deferStmt => "Defer"
  | doCatch => "Do Catch"
  | integerLiteral => "Integer Literal"
  | floatLiteral => "Float Literal"
  | booleanLiteral => "Boolean Literal"
  | stringLiteral => "String Literal"
  | interpolated => "Interpolated String"
  | nilLiteral => "Nil Literal"
  | reference => "Declaration Reference"
  | binary => "Binary"
  | prefixUnary => "Prefix Unary"
  | assign => "Assign"
  | call => "Call"
  | member => "Member"
  | implicitMember => "Implicit Member"
  | subscript => "Subscript"
  | arrayLiteral => "Array Literal"
  | dictionaryLiteral => "Dictionary Literal"
  | tuple => "Tuple"
  | wrapped .paren => "Parentheses"
  | closure => "Closure"
  | ternary => "Ternary"
  | wrapped .forceUnwrap => "Force Unwrap"
  | wrapped .bindOptional => "Bind Optional"
  | wrapped .optionalEvaluation => "Optional Evaluation"
  | cast => "Cast"
  | wrapped .tryExpr => "Try"
  | wrapped .optionalTry => "Optional Try"
  | invalid => "Invalid"
  | unknown => "Unknown"

end Tag

def Literal.tag : Literal → Tag
  | integer _ => .integerLiteral
  | float _ => .floatLiteral
  | boolean _ => .booleanLiteral
  | string _ => .stringLiteral
  | nil => .nilLiteral

def Construct.tag {α : Type} : Construct α → Tag
  | file _ => .file
  | importModule _ => .importModule
  | function _ => .function
  | initializer _ _ => .initializer
  | variableDecl _ => .variableDecl
  | typeDecl kind _ => .typeDecl kind
  | enumCase _ => .enumCase
  | extensionDecl _ _ => .extensionDecl
  | typeAlias _ _ => .typeAlias
  | block _ => .block
  | returnStmt _ => .returnStmt
  | ifStmt _ _ _ => .ifStmt
  | guardStmt _ _ => .guardStmt
  | whileStmt _ _ => .whileStmt
  | repeatWhile _ _ => .repeatWhile
  | forEach _ _ _ => .forEach
  | switchStmt _ _ => .switchStmt
  | breakStmt => .breakStmt
  | continueStmt => .continueStmt
  | throwStmt _ => .throwStmt
  | deferStmt _ => .deferStmt
  | doCatch _ _ => .doCatch
  | literal value => value.tag
  | interpolated _ => .interpolated
  | reference _ _ => .reference
  | binary _ _ _ => .binary
  | prefixUnary _ _ => .prefixUnary
  | assign _ _ => .assign
  | call _ _ => .call
  | member _ _ => .member
  | implicitMember _ _ => .implicitMember
  | subscript _ _ => .subscript
  | arrayLiteral _ => .arrayLiteral
  | dictionaryLiteral _ => .dictionaryLiteral
  | tuple _ => .tuple
  | closure _ _ => .closure
  | ternary _ _ _ => .ternary
  | wrapped form _ => .wrapped form
  | cast _ _ _ => .cast
  | invalid _ _ => .invalid
  | unknown _ _ => .unknown

@[simp] theorem Construct.tag_map {α β : Type} (f : α → β) (construct : Construct α) :
    (construct.map f).tag = construct.tag := by
  cases construct <;> rfl

end SwiftToKotlin.Swift
