import SwiftToKotlin.Swift.Node

/-! # The types that a file declares

All type declarations of a file, gathered before anything is lowered, so that a use before its
declaration meets the same decisions as one after it. Where a name is declared twice the first
declaration counts, except that the last alias of a name counts.
-/

namespace SwiftToKotlin.Lowering

open Swift (Node Ty TypeKind TypeDecl EnumCaseDecl)

inductive Declaration
  | type (kind : TypeKind) (decl : TypeDecl Node)
  | alias (name : String) (ty : Ty)

/-! ## Gathering -/

mutual

/-- The declarations in a tree, outer ones first. Bodies of functions are not searched, nor is what
protocols require. -/
def declarations : Node → List Declaration
  | ⟨.file items, _⟩ => allDeclarations items
  | ⟨.typeDecl .protocolType decl, _⟩ => [.type .protocolType decl]
  | ⟨.typeDecl kind ⟨name, inherits, members⟩, _⟩ =>
    .type kind ⟨name, inherits, members⟩ :: allDeclarations members
  | ⟨.typeAlias name ty, _⟩ => [.alias name ty]
  | ⟨.extensionDecl _ members, _⟩ => allDeclarations members
  | ⟨.unknown _ children, _⟩ => allDeclarations children
  | _ => []

def allDeclarations : List Node → List Declaration
  | [] => []
  | node :: rest => declarations node ++ allDeclarations rest

end

structure DeclaredTypes where
  declarations : List Declaration

namespace DeclaredTypes

def ofTree (root : Node) : DeclaredTypes :=
  ⟨Lowering.declarations root⟩

/-! ## Queries by name -/

/-- The types of a kind in order. -/
def ofKind (types : DeclaredTypes) (kind : TypeKind) : List (TypeDecl Node) :=
  types.declarations.filterMap fun
    | .type found decl => if found = kind then some decl else none
    | .alias _ _ => none

def find? (types : DeclaredTypes) (kind : TypeKind) (name : String) : Option (TypeDecl Node) :=
  (types.ofKind kind).find? (·.name == name)

def struct? (types : DeclaredTypes) (name : String) : Option (TypeDecl Node) :=
  types.find? .structType name

def enum? (types : DeclaredTypes) (name : String) : Option (TypeDecl Node) :=
  types.find? .enumType name

def isClass (types : DeclaredTypes) (name : String) : Bool :=
  (types.find? .classType name).isSome

def isProtocol (types : DeclaredTypes) (name : String) : Bool :=
  (types.find? .protocolType name).isSome

def alias? (types : DeclaredTypes) (name : String) : Option Ty :=
  types.declarations.reverse.findSome? fun
    | .alias found ty => if found = name then some ty else none
    | .type _ _ => none

/-- Whether a struct, class or enum has the name. -/
def isConstructible (types : DeclaredTypes) (name : String) : Bool :=
  (types.struct? name).isSome || types.isClass name || (types.enum? name).isSome

def isType (types : DeclaredTypes) (name : String) : Bool :=
  types.isConstructible name || types.isProtocol name || (types.alias? name).isSome

/-- Whether a declared class has the name and another one inherits it. -/
def isSubclassed (types : DeclaredTypes) (name : String) : Bool :=
  types.isClass name && (types.ofKind .classType).any (·.inherits.contains name)

/-! ## Aliases -/

/-- The named type that an alias stands for, unless it is the alias itself. -/
def aliased? (types : DeclaredTypes) (name : String) : Option String :=
  ((types.alias? name).bind Ty.name?).filter (· != name)

/-- Follows at most so many aliases of named types. -/
def follow (types : DeclaredTypes) : Nat → String → String
  | 0, name => name
  | steps + 1, name =>
    match types.aliased? name with
    | some next => types.follow steps next
    | none => name

/-- The name behind the aliases of named types. -/
def resolve (types : DeclaredTypes) (name : String) : String :=
  types.follow 8 name

/-! ## Enum cases -/

def casesOf (decl : TypeDecl Node) : List (EnumCaseDecl Node) :=
  decl.members.filterMap fun member =>
    match member.construct with
    | .enumCase case => some case
    | _ => none

def caseOf? (decl : TypeDecl Node) (case : String) : Option (EnumCaseDecl Node) :=
  (casesOf decl).find? (·.name == case)

/-- The case of a declared enum. -/
def case? (types : DeclaredTypes) (enum case : String) : Option (EnumCaseDecl Node) :=
  (types.enum? enum).bind (caseOf? · case)

def hasCase (types : DeclaredTypes) (enum case : String) : Bool :=
  (types.case? enum case).isSome

/-- The only declared enum with a case of the name. -/
def enumForCase (types : DeclaredTypes) (case : String) : Option String :=
  match (((types.ofKind .enumType).map TypeDecl.name).eraseDups).filter (types.hasCase · case) with
  | [owner] => some owner
  | _ => none

/-! ## Parameters of constructors -/

/-- A parameter as a call sees it: its label, the name that it has in Kotlin, and whether it may be
left out. -/
structure Slot where
  label : Option String
  name : String
  hasDefault : Bool
  deriving DecidableEq

def slot (param : Swift.Param Node) : Slot :=
  ⟨param.label, param.name, param.defaultValue.isSome⟩

/-- The classes of enum cases name their fields after the labels. -/
def caseSlots (case : EnumCaseDecl Node) : List Slot :=
  case.params.map fun param => { slot param with name := param.label.getD param.name }

/-- The stored properties of instances, in order. -/
def storedProperties (decl : TypeDecl Node) : List (Swift.VariableDecl Node) :=
  decl.members.filterMap fun member =>
    match member.construct with
    | .variableDecl decl => if decl.isStored && !decl.isStatic then some decl else none
    | _ => none

def initializers (decl : TypeDecl Node) : List (List Slot) :=
  decl.members.filterMap fun member =>
    match member.construct with
    | .initializer params _ => some (params.map slot)
    | _ => none

/-- The initializer that a struct has from its stored properties. -/
def memberwise (decl : TypeDecl Node) : List Slot :=
  (storedProperties decl).map fun property =>
    ⟨some property.name, property.name, property.init.isSome⟩

/-- The constructors of a declared struct or class. -/
def constructors? (types : DeclaredTypes) (name : String) : Option (List (List Slot)) :=
  types.declarations.findSome? fun
    | .type .structType decl =>
      if decl.name = name then
        match initializers decl with
        | [] => some [memberwise decl]
        | declared => some declared
      else none
    | .type .classType decl => if decl.name = name then some (initializers decl) else none
    | _ => none

/-- The names of the parameters that arguments with the labels go to, in order. Parameters with a
default may be skipped. -/
def matchLabels : List Slot → List (Option String) → Option (List String)
  | [], [] => some []
  | [], _ :: _ => none
  | slot :: slots, [] => if slot.hasDefault then matchLabels slots [] else none
  | slot :: slots, label :: labels =>
    if label = slot.label then (matchLabels slots labels).map (slot.name :: ·)
    else if slot.hasDefault then matchLabels slots (label :: labels)
    else none

/-- The parameter names for a call of a constructor, if one takes the labels. -/
def argumentNames (types : DeclaredTypes) (name : String) (labels : List (Option String)) :
    Option (List String) :=
  (types.constructors? name).bind fun constructors =>
    constructors.findSome? (matchLabels · labels)

/-- The field names for the construction of an enum case. -/
def caseArgumentNames (types : DeclaredTypes) (enum case : String)
    (labels : List (Option String)) : Option (List String) :=
  (types.case? enum case).bind fun case => matchLabels (caseSlots case) labels

end DeclaredTypes

end SwiftToKotlin.Lowering
