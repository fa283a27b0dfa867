import SwiftToKotlin.Kotlin.Layout
import SwiftToKotlin.Kotlin.Node
import SwiftToKotlin.Text.Alphanumeric
import SwiftToKotlin.Text.Cut

/-! # Kotlin source text

The text of a tree. The layout is fixed: a block opens on the line of its header and closes on a
line of its own. Operands are put into parentheses where the precedence of operators asks for it.
-/

namespace SwiftToKotlin.Kotlin

/-! ## Precedence of expressions -/

namespace Precedence

def conditional : Nat := 0

def check : Nat := 5

def cast : Nat := 11

def unary : Nat := 12

def suffix : Nat := 13

def atom : Nat := 20

end Precedence

def Literal.isNegative : Literal → Bool
  | int text => text.toList.head? == some '-'
  | double text => text.toList.head? == some '-'
  | _ => false

def CastKind.precedence : CastKind → Nat
  | check => Precedence.check
  | _ => Precedence.cast

def Construct.precedence {α : Type} : Construct α → Nat
  | binary op _ _ => op.precedence
  | unary _ _ => Precedence.unary
  | cast kind _ _ => kind.precedence
  | ifExpr _ _ _ => Precedence.conditional
  | lambda _ _ => Precedence.conditional
  | literal value => if value.isNegative then Precedence.unary else Precedence.atom
  | notNullAssert _ => Precedence.suffix
  | call _ _ _ => Precedence.suffix
  | member _ _ _ => Precedence.suffix
  | index _ _ => Precedence.suffix
  | _ => Precedence.atom

/-- Whether the construct begins with a sign. -/
def Construct.isSigned {α : Type} : Construct α → Bool
  | unary _ _ => true
  | literal value => value.isNegative
  | _ => false

/-- Whether an expression holds a lambda of several statements, so that it takes more than a
line. -/
def Node.containsBlock (node : Node) : Bool :=
  node.fold fun construct _ =>
    match construct with
    | .lambda _ body => body.length > 1
    | .call callee args trailingLambda =>
      callee || args.any Argument.value || trailingLambda.getD false
    | .binary _ lhs rhs => lhs || rhs
    | .member base _ _ => base
    | .notNullAssert value => value
    | _ => false

/-! ## Texts -/

def escapeChar : Char → List Char
  | '"' => ['\\', '"']
  | '\\' => ['\\', '\\']
  | '\n' => ['\\', 'n']
  | '\r' => ['\\', 'r']
  | '\t' => ['\\', 't']
  | '$' => ['\\', '$']
  | c => [c]

def escaped (text : String) : String :=
  String.ofList (text.toList.flatMap escapeChar)

def stringLiteral (text : String) : String :=
  "\"" ++ escaped text ++ "\""

/-- A comment cannot be closed or opened again by its text. -/
def blockComment (text : String) : String :=
  "/* " ++ String.ofList (Text.setApart '/' '*' (Text.setApart '*' '/' text.toList)) ++ " */"

/-- Whether a template may name the identifier without braces. -/
def isPlainIdentifier (name : String) : Bool :=
  match name.toList with
  | [] => false
  | c :: cs => (Text.isAlphabetic c || c == '_') && cs.all Text.isNameChar

def Literal.source : Literal → String
  | int text => text
  | double text => text
  | bool value => if value then "true" else "false"
  | string text => stringLiteral text
  | null => "null"

/-! ## Fragments -/

/-- A construct as it is written in the place of a statement and in the place of a value. -/
structure Written where
  statement : Fragment
  value : Fragment

/-- Written alike in both places. -/
def Written.same (fragment : Fragment) : Written :=
  ⟨fragment, fragment⟩

namespace Written

/-- A part of a construct and how it is written. -/
abbrev Part := Node × Written

def asValue (part : Part) : Fragment :=
  part.2.value

def asStatement (part : Part) : Fragment :=
  part.2.statement

def parenthesized (part : Part) : Fragment :=
  "(" ++ asValue part ++ ")"

/-- An operand of an operator with the given precedence. A strict place takes no operand of the same
precedence. -/
def operand (parent : Nat) (strict : Bool) (part : Part) : Fragment :=
  let own := part.1.construct.precedence
  if own < parent || (own == parent && strict) then parenthesized part else asValue part

def block (body : List Part) : Fragment :=
  .braced (stacked (body.map asStatement))

/-- Statements and declarations, the declarations set apart by blank lines. -/
def itemLines (items : List Part) : List Line :=
  spaced (items.map fun item => (item.1.construct.isDeclaration, asStatement item))

def modifiers (list : List Modifier) : String :=
  String.join (list.map (·.keyword ++ " "))

def param (param : Param Part) : Fragment :=
  let binding := match param.binding with
    | some binding => binding.keyword ++ " "
    | none => ""
  let declared := s!"{binding}{param.name}: {param.ty.display}"
  match param.defaultValue with
  | some value => s!"{declared} = " ++ asValue value
  | none => declared

def params (list : List (Param Part)) : Fragment :=
  .separated ", " (list.map param)

def receiver : Option Ty → String
  | some ty => ty.display ++ "."
  | none => ""

def ascription : Option Ty → String
  | some ty => ": " ++ ty.display
  | none => ""

def function (decl : FunctionDef Part) : Fragment :=
  let header := s!"{modifiers decl.modifiers}fun {receiver decl.receiver}{decl.name}("
    ++ params decl.params ++ (")" ++ ascription decl.returnType : String)
  match decl.body with
  | some body => header ++ " " ++ block body
  | none => header

/-- An accessor on the lines below its property. -/
def accessor (header : String) : Option (List Part) → Fragment
  | some body => .nested (header ++ block body).lines
  | none => ""

def property (decl : PropertyDef Part) : Fragment :=
  let header := s!"{modifiers decl.modifiers}{decl.binding.keyword} "
    ++ s!"{receiver decl.receiver}{decl.name}{ascription decl.ty}"
  let initial : Fragment := match decl.init with
    | some value => " = " ++ asValue value
    | none => ""
  header ++ initial ++ accessor "get() " decl.getter ++ accessor "set(newValue) " decl.setter

def supertype (type : Supertype) : String :=
  type.name ++ if type.constructorCall then "()" else ""

def supertypes : List Supertype → String
  | [] => ""
  | list => " : " ++ ", ".intercalate (list.map supertype)

def enumEntry (entry : EnumEntry Part) : Fragment :=
  if entry.args.isEmpty then entry.name
  else s!"{entry.name}(" ++ .separated ", " (entry.args.map asValue) ++ ")"

/-- The entries of an enumeration, with commas between them and `terminator` behind the last. -/
def enumEntries (terminator : String) : List (EnumEntry Part) → List Line
  | [] => []
  | [entry] => (enumEntry entry ++ terminator).lines
  | entry :: rest => (enumEntry entry ++ ",").lines ++ enumEntries terminator rest

def classBody (decl : ClassDef Part) : List Line :=
  let terminator := if decl.members.isEmpty then "" else ";"
  enumEntries terminator decl.entries
    ++ (if decl.entries.isEmpty || decl.members.isEmpty then [] else [.blank])
    ++ itemLines decl.members

def classDef (decl : ClassDef Part) : Fragment :=
  let primary : Fragment :=
    if decl.params.isEmpty then "" else "(" ++ params decl.params ++ ")"
  let header := s!"{modifiers decl.modifiers}{decl.kind.keyword} {decl.name}" ++ primary
    ++ supertypes decl.supertypes
  if decl.entries.isEmpty && decl.members.isEmpty then header
  else header ++ " " ++ .braced (classBody decl)

/-- A statement that is an `if` again goes on behind `else`. -/
def elseBranch : Option (List Part) → Fragment
  | none => ""
  | some [single] =>
    match single.1.construct with
    | .ifStmt .. => " else " ++ asStatement single
    | _ => " else " ++ block [single]
  | some body => " else " ++ block body

def whenCondition : WhenCondition Part → Fragment
  | .value value => asValue value
  | .is ty => s!"is {ty.display}"

def whenBranch (branch : WhenBranch Part) : Fragment :=
  let conditions : Fragment :=
    if branch.conditions.isEmpty then "else"
    else .separated ", " (branch.conditions.map whenCondition)
  conditions ++ " -> " ++ block branch.body

def whenSubject : Option Part → Fragment
  | some subject => "(" ++ asValue subject ++ ") "
  | none => ""

def catchBlock (handler : CatchBlock Part) : Fragment :=
  s!" catch ({handler.name}: {handler.ty.display}) " ++ block handler.body

def argument (argument : Argument Part) : Fragment :=
  match argument.name with
  | some name => s!"{name} = " ++ asValue argument.value
  | none => asValue argument.value

/-- The arguments in parentheses, which may be missing before a trailing lambda. -/
def arguments (args : List (Argument Part)) (trailingLambda : Option Part) : Fragment :=
  match args, trailingLambda with
  | [], some lambda => " " ++ asValue lambda
  | args, some lambda =>
    "(" ++ .separated ", " (args.map argument) ++ ") " ++ asValue lambda
  | args, none => "(" ++ .separated ", " (args.map argument) ++ ")"

def unaryOperand (part : Part) : Fragment :=
  if part.1.construct.precedence < Precedence.unary || part.1.construct.isSigned then
    parenthesized part
  else asValue part

/-- A single parameter named `it` is left unsaid. -/
def lambdaHeader (names : List String) : String :=
  match names with
  | [] => ""
  | ["it"] => ""
  | names => ", ".intercalate names ++ " ->"

/-- A lambda of one simple expression stays on its line. -/
def lambda (names : List String) (body : List Part) : Fragment :=
  let header := lambdaHeader names
  let opening := if header.isEmpty then "\x7b" else "\x7b " ++ header
  let lines := stacked (body.map asStatement)
  match body with
  | [] => if header.isEmpty then "\x7b\x7d" else opening ++ " \x7d"
  | [single] =>
    if single.1.construct.isExpression && !single.1.containsBlock then
      opening ++ " " ++ asValue single ++ " \x7d"
    else opening ++ .nested lines ++ ⟨"", [.code 0 "\x7d"]⟩
  | _ => opening ++ .nested lines ++ ⟨"", [.code 0 "\x7d"]⟩

/-- Whether text that follows would be read as part of an identifier before it. -/
def goesOn : List (TemplatePart Part) → Bool
  | .text text :: _ => text.toList.head?.any Text.isNameChar
  | _ => false

def templateExpr (value : Part) (next : List (TemplatePart Part)) : Fragment :=
  let inBraces := "$\x7b" ++ asValue value ++ "\x7d"
  match value.1.construct with
  | .reference name => if isPlainIdentifier name && !goesOn next then "$" ++ name else inBraces
  | _ => inBraces

def templateParts : List (TemplatePart Part) → Fragment
  | [] => ""
  | .text text :: rest => escaped text ++ templateParts rest
  | .expr value :: rest => templateExpr value rest ++ templateParts rest

def fragment : Construct Part → Fragment
  | .file items => .concat (items.map asStatement)
  | .comment text => blockComment text
  | .importModule name => s!"import {name}"
  | .function decl => function decl
  | .property decl => property decl
  | .classDef decl => classDef decl
  | .secondaryConstructor list body => "constructor(" ++ params list ++ ") " ++ block body
  | .companionObject members => "companion object " ++ .braced (itemLines members)
  | .typeAlias name ty => s!"typealias {name} = {ty.display}"
  | .returnStmt none => "return"
  | .returnStmt (some value) => "return " ++ asValue value
  | .ifStmt condition thenBranch otherwise =>
    "if (" ++ asValue condition ++ ") " ++ block thenBranch ++ elseBranch otherwise
  | .whileStmt condition body => "while (" ++ asValue condition ++ ") " ++ block body
  | .doWhile body condition => "do " ++ block body ++ " while (" ++ asValue condition ++ ")"
  | .forStmt binder iterable body =>
    s!"for ({binder} in " ++ asValue iterable ++ ") " ++ block body
  | .whenStmt subject branches =>
    "when " ++ whenSubject subject ++ .braced (stacked (branches.map whenBranch))
  | .breakStmt => "break"
  | .continueStmt => "continue"
  | .throwStmt value => "throw " ++ asValue value
  | .tryCatch body catches => "try " ++ block body ++ .concat (catches.map catchBlock)
  | .assign op target value => asValue target ++ s!" {op.symbol} " ++ asValue value
  | .literal value => value.source
  | .template parts => "\"" ++ templateParts parts ++ "\""
  | .reference name => name
  | .binary op lhs rhs =>
    operand op.precedence op.isNonAssociative lhs ++ s!" {op.symbol} "
      ++ operand op.precedence true rhs
  | .unary op part => op.symbol ++ unaryOperand part
  | .notNullAssert value => operand Precedence.suffix false value ++ "!!"
  | .call callee args trailingLambda =>
    operand Precedence.suffix false callee ++ arguments args trailingLambda
  | .member base name safe =>
    operand Precedence.suffix false base ++ (if safe then "?." else ".") ++ name
  | .index base position =>
    operand Precedence.suffix false base ++ "[" ++ asValue position ++ "]"
  | .lambda names body => lambda names body
  | .ifExpr condition thenValue elseValue =>
    "if (" ++ asValue condition ++ ") " ++ asValue thenValue ++ " else " ++ asValue elseValue
  | .cast kind value ty =>
    operand kind.precedence false value ++ s!" {kind.keyword} {ty.display}"

/-- What stands for a construct without a counterpart is a comment among statements and a failing
call among values; everything else is written alike in both places. -/
def ofConstruct (construct : Construct Part) : Written :=
  match construct with
  | .comment text => ⟨fragment construct, s!"TODO({stringLiteral text})"⟩
  | _ => .same (fragment construct)

end Written

def Node.written (node : Node) : Written :=
  node.para fun construct _ => Written.ofConstruct construct

/-- The lines of a file, or of any other node as a statement. -/
def Node.lines (node : Node) : List Line :=
  match node.construct with
  | .file items => Written.itemLines (items.map fun item => (item, item.written))
  | _ => node.written.statement.lines

/-- The source text, with `width` blanks for each level. -/
def Node.source (width : Nat) (node : Node) : String :=
  renderLines width node.lines

end SwiftToKotlin.Kotlin
