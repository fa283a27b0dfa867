import SwiftToKotlin.Dump.Node
import SwiftToKotlin.Swift.Tag

/-! # The catalogue of node kinds

Every kind of dump node that has a meaning, with the shape that its nodes must have. Kinds without
a tag occur only as parts of particular parents.
-/

namespace SwiftToKotlin.Swift

/-- A kind, the construct it stands for, the least and greatest number of children, and the
attributes that must be there. -/
structure Entry where
  kind : String
  tag : Option Tag
  minChildren : Nat
  maxChildren : Option Nat
  required : List String

/-- Whether a node has the shape of its entry: attributes first, then the number of children. -/
def Entry.validate (entry : Entry) (raw : Dump.Node) : Except Flaw Unit :=
  let count := raw.children.length
  match entry.required.find? (fun key => !raw.has key) with
  | some key => .error (.missingAttribute key)
  | none =>
    if count < entry.minChildren then .error (.tooFewChildren entry.minChildren count)
    else match entry.maxChildren with
      | some most => if count > most then .error (.tooManyChildren most count) else .ok ()
      | none => .ok ()

namespace Catalogue

def declarations : List Entry :=
  [⟨"source_file", some .file, 0, none, []⟩,
    ⟨"import_decl", some .importModule, 0, some 0, ["module"]⟩,
    ⟨"func_decl", some .function, 0, some 2, ["name"]⟩,
    ⟨"constructor_decl", some .initializer, 0, some 2, []⟩,
    ⟨"var_decl", some .variableDecl, 0, some 3, ["name"]⟩,
    ⟨"struct_decl", some (.typeDecl .structType), 0, none, ["name"]⟩,
    ⟨"class_decl", some (.typeDecl .classType), 0, none, ["name"]⟩,
    ⟨"protocol_decl", some (.typeDecl .protocolType), 0, none, ["name"]⟩,
    ⟨"enum_decl", some (.typeDecl .enumType), 0, none, ["name"]⟩,
    ⟨"enum_element_decl", some .enumCase, 0, some 2, ["name"]⟩,
    ⟨"extension_decl", some .extensionDecl, 0, none, ["type"]⟩,
    ⟨"typealias_decl", some .typeAlias, 0, some 0, ["name", "type"]⟩]

def statements : List Entry :=
  [⟨"brace_stmt", some .block, 0, none, []⟩,
    ⟨"return_stmt", some .returnStmt, 0, some 1, []⟩,
    ⟨"if_stmt", some .ifStmt, 2, some 3, []⟩,
    ⟨"guard_stmt", some .guardStmt, 2, some 2, []⟩,
    ⟨"while_stmt", some .whileStmt, 2, some 2, []⟩,
    ⟨"repeat_while_stmt", some .repeatWhile, 2, some 2, []⟩,
    ⟨"for_each_stmt", some .forEach, 2, some 2, ["variable"]⟩,
    ⟨"switch_stmt", some .switchStmt, 1, none, []⟩,
    ⟨"break_stmt", some .breakStmt, 0, some 0, []⟩,
    ⟨"continue_stmt", some .continueStmt, 0, some 0, []⟩,
    ⟨"throw_stmt", some .throwStmt, 1, some 1, []⟩,
    ⟨"defer_stmt", some .deferStmt, 1, some 1, []⟩,
    ⟨"do_catch_stmt", some .doCatch, 1, none, []⟩]

def expressions : List Entry :=
  [⟨"integer_literal_expr", some .integerLiteral, 0, some 0, ["value"]⟩,
    ⟨"float_literal_expr", some .floatLiteral, 0, some 0, ["value"]⟩,
    ⟨"boolean_literal_expr", some .booleanLiteral, 0, some 0, ["value"]⟩,
    ⟨"string_literal_expr", some .stringLiteral, 0, some 0, ["value"]⟩,
    ⟨"interpolated_string_literal_expr", some .interpolated, 0, none, []⟩,
    ⟨"nil_literal_expr", some .nilLiteral, 0, some 0, []⟩,
    ⟨"declref_expr", some .reference, 0, some 0, ["name"]⟩,
    ⟨"binary_expr", some .binary, 2, some 2, ["operator"]⟩,
    ⟨"prefix_unary_expr", some .prefixUnary, 1, some 1, ["operator"]⟩,
    ⟨"assign_expr", some .assign, 2, some 2, []⟩,
    ⟨"call_expr", some .call, 1, none, []⟩,
    ⟨"member_ref_expr", some .member, 1, some 1, ["name"]⟩,
    ⟨"implicit_member_expr", some .implicitMember, 0, some 0, ["name"]⟩,
    ⟨"subscript_expr", some .subscript, 2, some 2, []⟩,
    ⟨"array_expr", some .arrayLiteral, 0, none, []⟩,
    ⟨"dictionary_expr", some .dictionaryLiteral, 0, none, []⟩,
    ⟨"tuple_expr", some .tuple, 0, none, []⟩,
    ⟨"paren_expr", some (.wrapped .paren), 1, some 1, []⟩,
    ⟨"closure_expr", some .closure, 1, some 2, []⟩,
    ⟨"ternary_expr", some .ternary, 3, some 3, []⟩,
    ⟨"force_value_expr", some (.wrapped .forceUnwrap), 1, some 1, []⟩,
    ⟨"bind_optional_expr", some (.wrapped .bindOptional), 1, some 1, []⟩,
    ⟨"optional_evaluation_expr", some (.wrapped .optionalEvaluation), 1, some 1, []⟩,
    ⟨"coerce_expr", some .cast, 1, some 1, ["type"]⟩,
    ⟨"conditional_checked_cast_expr", some .cast, 1, some 1, ["type"]⟩,
    ⟨"forced_checked_cast_expr", some .cast, 1, some 1, ["type"]⟩,
    ⟨"is_expr", some .cast, 1, some 1, ["type"]⟩,
    ⟨"try_expr", some (.wrapped .tryExpr), 1, some 1, []⟩,
    ⟨"optional_try_expr", some (.wrapped .optionalTry), 1, some 1, []⟩]

/-- Kinds that only their parents read. -/
def helpers : List Entry :=
  [⟨"parameter_list", none, 0, none, []⟩,
    ⟨"parameter", none, 0, some 1, ["name", "type"]⟩,
    ⟨"accessor_decl", none, 0, some 1, ["kind"]⟩,
    ⟨"case_stmt", none, 1, none, []⟩,
    ⟨"catch_stmt", none, 1, some 1, []⟩,
    ⟨"optional_binding", none, 1, some 1, ["name"]⟩,
    ⟨"argument", none, 1, some 1, []⟩]

def entries : List Entry :=
  declarations ++ statements ++ expressions ++ helpers

def entryFor? (kind : String) : Option Entry :=
  entries.find? (·.kind == kind)

/-- The place of a kind in the catalogue, counted from zero. -/
def position? (kind : String) : Option Nat :=
  entries.findIdx? (·.kind == kind)

end Catalogue

/-- The kinds of dump nodes that stand for a construct. -/
def Tag.dumpKinds (tag : Tag) : List String :=
  (Catalogue.entries.filter (·.tag == some tag)).map Entry.kind

end SwiftToKotlin.Swift
