import SwiftToKotlin.Lowering.Function

/-! # Structs, classes, protocols and extensions -/

namespace SwiftToKotlin.Lowering

open Swift (Node TypeDecl)

namespace TypeBody

variable (descent : Descent)

/-! ## Members -/

def isStatic (node : Node) : Bool :=
  match node.construct with
  | .function decl => decl.isStatic
  | .variableDecl decl => decl.isStatic
  | _ => false

/-- The members of a type: those of its instances and those of the type itself. -/
structure Members where
  instances : List Kotlin.Node
  statics : List Kotlin.Node

/-- The members in the body of a class, with the static ones in the companion object. -/
def Members.nodes (members : Members) (range : Option SourceRange) : List Kotlin.Node :=
  members.instances ++
    if members.statics.isEmpty then [] else [⟨.companionObject members.statics, range⟩]

def memberOf (node : Node) : Lower (Bool × List Kotlin.Node) := do
  return (isStatic node, ← descent.statement node)

def members (scope : Scope) (nodes : List Node) : Lower Members :=
  withScope scope <| inBlock do
    let lowered ← nodes.mapM (memberOf descent)
    return {
      instances := (lowered.filter (!·.1)).flatMap Prod.snd
      statics := (lowered.filter (·.1)).flatMap Prod.snd }

/-- The supertypes, but for those in `skipped`. -/
def supertypes (types : DeclaredTypes) (decl : TypeDecl Node) (skipped : List String) :
    List Kotlin.Supertype :=
  (decl.inherits.filter (!skipped.contains ·)).map fun name => ⟨name, types.isClass name⟩

/-! ## Structs -/

def isStoredProperty (node : Node) : Bool :=
  match node.construct with
  | .variableDecl decl => decl.isStored && !decl.isStatic
  | _ => false

/-- The type of a constructor parameter for a stored property. -/
def propertyType (decl : Swift.VariableDecl Node) (range : Option SourceRange) :
    Lower Kotlin.Ty := do
  match ← Function.variableType decl with
  | some ty => lowerTy ty range
  | none => return .named "Any" []

/-- A stored property as a parameter of the primary constructor. -/
def constructorProperty (decl : Swift.VariableDecl Node) (range : Option SourceRange) :
    Lower (Kotlin.Param Kotlin.Node) := do
  let ty ← propertyType decl range
  declare decl.name (← Function.variableType decl)
  let defaultValue ← Swift.optionM descent.kept decl.init
  return { name := identifier decl.name, ty, defaultValue
           binding := some (Function.binding decl.isLet) }

def constructorProperties : List Node → Lower (List (Kotlin.Param Kotlin.Node))
  | [] => pure []
  | node :: rest =>
    match node.construct with
    | .variableDecl decl => do
      let param ← constructorProperty descent decl node.range
      return param :: (← constructorProperties rest)
    | _ => constructorProperties rest

def dataClass (decl : TypeDecl Node) (range : Option SourceRange) : Lower Kotlin.Node := do
  let (stored, rest) := decl.members.partition isStoredProperty
  let (params, members) ← inBlock do
    let params ← withScope (.type decl.name) (constructorProperties descent stored)
    return (params, ← members descent (.type decl.name) rest)
  return ⟨.classDef
    { name := identifier decl.name, kind := .data, params, members := members.nodes range
      supertypes := supertypes (← types) decl [] }, range⟩

/-- Equality of all stored properties. -/
def equalsMember (className : String) (stored : List String) (range : Option SourceRange) :
    Kotlin.Node :=
  let other : Kotlin.Node := .reference "other" range
  let same (field : String) : Kotlin.Node :=
    .binary .eq (.member (.reference "this" range) field range) (.member other field range) range
  let isSameClass : Kotlin.Node := ⟨.cast .check other (.named className []), range⟩
  let equal := stored.foldl (fun equal field => .binary .conj equal (same field) range) isSameClass
  ⟨.function
    { name := "equals", receiver := none
      params := [{ name := "other", ty := .nullable (.named "Any" []) }]
      returnType := some (.named "Boolean" [])
      body := some [⟨.returnStmt (some equal), range⟩]
      modifiers := [.overrideMember] }, range⟩

/-- A hash of all stored properties. -/
def hashCodeMember (stored : List String) (range : Option SourceRange) : Kotlin.Node :=
  let hash : Kotlin.Node :=
    if stored.isEmpty then .literal (.int "0") range
    else
      let fields := stored.map (Kotlin.Node.reference · range)
      Call.method (.call (.reference "listOf" range) fields range) "hashCode" false range
  ⟨.function
    { name := "hashCode", receiver := none, params := []
      returnType := some (.named "Int" [])
      body := some [⟨.returnStmt (some hash), range⟩]
      modifiers := [.overrideMember] }, range⟩

/-- A class that compares its instances by their stored properties. -/
def classWithEquality (decl : TypeDecl Node) (range : Option SourceRange) : Lower Kotlin.Node := do
  warn (.structAsClass decl.name) range
  let name := identifier decl.name
  let members ← members descent (.type decl.name) decl.members
  let stored := (DeclaredTypes.storedProperties decl).map (identifier ·.name)
  let equality := [equalsMember name stored range, hashCodeMember stored range]
  return ⟨.classDef
    { name, kind := .plain
      members := { members with instances := members.instances ++ equality }.nodes range
      supertypes := supertypes (← types) decl [] }, range⟩

/-- The form of a struct is that of the first declaration of its name. -/
def structDecl (decl : TypeDecl Node) (range : Option SourceRange) : Lower Kotlin.Node := do
  match structForm (((← types).struct? decl.name).getD decl) with
  | .dataClass => dataClass descent decl range
  | .classWithEquality => classWithEquality descent decl range

/-! ## Classes and protocols -/

def classDecl (decl : TypeDecl Node) (range : Option SourceRange) : Lower Kotlin.Node := do
  let types ← types
  let members ← members descent (.type decl.name) decl.members
  return ⟨.classDef
    { name := identifier decl.name, kind := .plain, members := members.nodes range
      supertypes := supertypes types decl []
      modifiers := if types.isSubclassed decl.name then [.openMember] else [] }, range⟩

def protocolDecl (decl : TypeDecl Node) (range : Option SourceRange) : Lower Kotlin.Node := do
  let members ← members descent .protocol decl.members
  return ⟨.classDef
    { name := identifier decl.name, kind := .interface, members := members.nodes range
      supertypes := decl.inherits.map (⟨·, false⟩) }, range⟩

/-! ## Extensions -/

def isNestedType (node : Node) : Bool :=
  match node.construct with
  | .typeDecl .protocolType _ => false
  | .typeDecl _ _ => true
  | _ => false

/-- A member of an extension. Types move to the top level. -/
def extensionMember (node : Node) : Lower (List Kotlin.Node) :=
  if isNestedType node then withScope .topLevel (descent.statement node)
  else descent.statement node

/-- The receiver of an extension: the type that its text denotes, or a type of that name. -/
def extensionReceiver (extended : String) (range : Option SourceRange) : Lower Kotlin.Ty :=
  match Swift.Ty.parse extended with
  | .ok ty => lowerTy ty range
  | .error _ => pure (.named extended [])

def extensionDecl (extended : String) (nodes : List Node) (range : Option SourceRange) :
    Lower (List Kotlin.Node) := do
  if (← types).isProtocol extended then warn (.protocolExtension extended) range
  let receiver ← extensionReceiver extended range
  withScope (.extension receiver extended) <| inBlock do
    return (← nodes.mapM (extensionMember descent)).flatten

end TypeBody

end SwiftToKotlin.Lowering
