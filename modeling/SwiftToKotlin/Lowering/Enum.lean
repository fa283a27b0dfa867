import SwiftToKotlin.Lowering.TypeBody

/-! # Enums

An enum without associated values becomes an enumeration, whose entries carry raw values if the
enum has them; any other enum becomes a sealed class with a class for each case.
-/

namespace SwiftToKotlin.Lowering

open Swift (Node TypeDecl EnumCaseDecl)

namespace Enum

variable (descent : Descent)

/-- The types that raw values can have. -/
def rawValueTypes : List String :=
  ["Int", "Int8", "Int16", "Int32", "Int64", "UInt", "Double", "Float", "String", "Character"]

/-- The type of the raw values of an enum. -/
def rawType? (decl : TypeDecl Node) : Option String :=
  decl.inherits.head?.filter (rawValueTypes.contains ·)

def isEnumCase (node : Node) : Bool :=
  match node.construct with
  | .enumCase _ => true
  | _ => false

/-- The cases with their places. -/
def placedCases (nodes : List Node) : List (EnumCaseDecl Node × Option SourceRange) :=
  nodes.filterMap fun node =>
    match node.construct with
    | .enumCase case => some (case, node.range)
    | _ => none

/-! ## Raw values -/

def integerLiteral (n : Int) (range : Option SourceRange) : Kotlin.Node :=
  let magnitude : Kotlin.Node := .literal (.int (toString n.natAbs)) range
  if n < 0 then ⟨.unary .neg magnitude, range⟩ else magnitude

/-- The integer after `n`, as long as it fits. -/
def successor? (n : Int) : Option Int :=
  if Text.fitsSigned (n + 1) then some (n + 1) else none

/-- The integer that the case after one with the given raw value gets. -/
def integerAfter? (rawValue : Node) : Option Int :=
  match rawValue.construct with
  | .literal (.integer text) => (Text.readInteger text.toList).bind successor?
  | _ => none

/-- The raw value of an entry, if it has one, and the integer for the next. -/
def rawValue (rawType : String) (next : Option Int) (case : EnumCaseDecl Node)
    (range : Option SourceRange) : Lower (List Kotlin.Node × Option Int) := do
  match case.rawValue with
  | some value => return ([← descent.value value], integerAfter? value)
  | none =>
    if rawType = "String" ∨ rawType = "Character" then
      return ([.literal (.string case.name) range], next)
    else match next with
      | some n => return ([integerLiteral n range], successor? n)
      | none => return ([], none)

/-- The entries of an enumeration. Cases without a raw value count on from the one before. -/
def entries (enum : String) (rawType : Option String) :
    Option Int → List (EnumCaseDecl Node × Option SourceRange) →
      Lower (List (Kotlin.EnumEntry Kotlin.Node))
  | _, [] => pure []
  | next, (case, range) :: rest => do
    let name ← nameCase enum case.name .upperSnake
    let (args, next) ← match rawType with
      | some rawType => rawValue descent rawType next case range
      | none => pure ([], next)
    return ⟨name, args⟩ :: (← entries enum rawType next rest)

def rawValueParam (rawType : String) : Kotlin.Param Kotlin.Node :=
  { name := "rawValue", ty := .named (kotlinTypeName rawType) [], binding := some .val }

def enumClass (decl : TypeDecl Node) (range : Option SourceRange) : Lower Kotlin.Node := do
  let rawType := rawType? decl
  let entries ← entries descent decl.name rawType (some 0) (placedCases decl.members)
  let members ←
    TypeBody.members descent (.type decl.name) (decl.members.filter (!isEnumCase ·))
  return ⟨.classDef
    { name := identifier decl.name, kind := .enumeration
      params := rawType.toList.map rawValueParam
      supertypes := TypeBody.supertypes (← types) decl rawValueTypes
      entries, members := members.nodes range }, range⟩

/-! ## Associated values -/

/-- An associated value is a field named after its label. -/
def caseField (range : Option SourceRange) (param : Swift.Param Node) :
    Lower (Kotlin.Param Kotlin.Node) := do
  let ty ← lowerTy param.ty range
  return { name := identifier (param.label.getD param.name), ty, binding := some .val }

/-- The class for a case: an object unless it has associated values. -/
def caseClass (enum : String) (case : EnumCaseDecl Node) (range : Option SourceRange) :
    Lower Kotlin.Node := do
  let name ← nameCase enum case.name .upperCamel
  let params ← case.params.mapM (caseField range)
  return ⟨.classDef
    { name, kind := if case.params.isEmpty then .object else .data, params
      supertypes := [⟨identifier enum, true⟩] }, range⟩

def sealedClass (decl : TypeDecl Node) (range : Option SourceRange) : Lower Kotlin.Node := do
  let cases ← (placedCases decl.members).mapM fun (case, range) => caseClass decl.name case range
  let members ←
    TypeBody.members descent (.type decl.name) (decl.members.filter (!isEnumCase ·))
  return ⟨.classDef
    { name := identifier decl.name, kind := .sealed
      supertypes := TypeBody.supertypes (← types) decl []
      members := cases ++ members.nodes range }, range⟩

/-- The form of an enum is that of the first declaration of its name. -/
def enumDecl (decl : TypeDecl Node) (range : Option SourceRange) : Lower Kotlin.Node := do
  match enumForm (((← types).enum? decl.name).getD decl) with
  | .enumClass => enumClass descent decl range
  | .sealedClass => sealedClass descent decl range

end Enum

end SwiftToKotlin.Lowering
