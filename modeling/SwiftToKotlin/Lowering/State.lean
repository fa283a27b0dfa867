import SwiftToKotlin.Diagnostic
import SwiftToKotlin.Kotlin.Node
import SwiftToKotlin.Lowering.Idiom
import SwiftToKotlin.Lowering.Locals

/-! # The state of lowering

What lowering knows at a place of the program. The surroundings of a construct (the declaration it
stands in, the closures and switch cases around it, the enum it is expected to belong to) and the
blocks of locals are left as they were found; the named enum cases and the diagnostics only grow.
-/

namespace SwiftToKotlin.Lowering

open Swift (Ty)

/-- The declaration whose members are being lowered. -/
inductive Scope
  | topLevel
  | type (name : String)
  | protocol
  | extension (receiver : Kotlin.Ty) (name : String)

namespace Scope

/-- The type whose members can be named without it. -/
def enclosing? : Scope → Option String
  | type name => some name
  | extension _ name => some name
  | _ => none

def receiver? : Scope → Option Kotlin.Ty
  | extension receiver _ => some receiver
  | _ => none

def isType : Scope → Bool
  | type _ => true
  | _ => false

end Scope

/-- What surrounds a construct: the declaration it is a member of, how many closures it is in, the
enum that a bare case belongs to, and whether it is directly in a switch case. -/
structure Surroundings where
  scope : Scope := .topLevel
  closureDepth : Nat := 0
  expectedEnum : Option String := none
  inCase : Bool := false

structure State where
  surroundings : Surroundings := {}
  locals : Locals := []
  /-- The greatest anonymous parameter that the innermost closure uses. -/
  anonymousMax : Option Nat := none
  cases : CaseTable := .empty
  diagnostics : List Diagnostic := []

/-- What does not change while a file is lowered. -/
structure Context where
  types : DeclaredTypes
  droppedImports : List String

abbrev Lower := ReaderT Context (StateM State)

variable {α : Type}

def types : Lower DeclaredTypes := do
  return (← read).types

def surroundings : Lower Surroundings := do
  return (← get).surroundings

def locals : Lower Locals := do
  return (← get).locals

/-! ## Surroundings and blocks -/

/-- Runs an action in other surroundings. -/
def surrounded (change : Surroundings → Surroundings) (action : Lower α) : Lower α := do
  let outer ← surroundings
  modify fun state => { state with surroundings := change outer }
  let result ← action
  modify fun state => { state with surroundings := outer }
  return result

def withScope (scope : Scope) (action : Lower α) : Lower α :=
  surrounded (fun outer => { outer with scope }) action

def expecting (expectedEnum : Option String) (action : Lower α) : Lower α :=
  surrounded (fun outer => { outer with expectedEnum }) action

def withinCase (inCase : Bool) (action : Lower α) : Lower α :=
  surrounded (fun outer => { outer with inCase }) action

/-- Runs an action as the body of a function, outside of any closure or switch case. -/
def inFunction (action : Lower α) : Lower α :=
  surrounded (fun outer => { outer with closureDepth := 0, inCase := false }) action

/-- Runs an action in a block of its own. -/
def inBlock (action : Lower α) : Lower α := do
  modify fun state => { state with locals := .empty :: state.locals }
  let result ← action
  modify fun state => { state with locals := state.locals.tail }
  return result

/-- Runs an action as the body of a closure, and tells the greatest anonymous parameter in it. -/
def inClosure (action : Lower α) : Lower (α × Option Nat) := do
  let outer := (← get).anonymousMax
  modify fun state => { state with anonymousMax := none }
  let result ← surrounded
    (fun outer => { outer with closureDepth := outer.closureDepth + 1, inCase := false })
    (inBlock action)
  let inner := (← get).anonymousMax
  modify fun state => { state with anonymousMax := outer }
  return (result, inner)

def declare (name : String) (ty : Option Ty) : Lower Unit :=
  modify fun state => { state with locals := state.locals.declare name ty }

def narrow (name : String) (ty : Option Ty) : Lower Unit :=
  modify fun state => { state with locals := state.locals.narrow name ty }

/-- Declares a local that outlives its statement; gives the identifier it is written under. -/
def declareFresh (name : String) (ty : Option Ty) : Lower String := do
  let (locals, written) := (← get).locals.declareFresh name ty
  modify fun state => { state with locals }
  return identifier written

/-- Notes the use of an anonymous parameter. -/
def useAnonymous (index : Nat) : Lower Unit :=
  modify fun state =>
    { state with
      anonymousMax := match state.anonymousMax with
        | some greatest => some (max greatest index)
        | none => some index }

/-! ## Diagnostics -/

def report (cause : Cause) (range : Option SourceRange) : Lower Unit :=
  modify fun state => { state with diagnostics := state.diagnostics ++ [⟨cause, range⟩] }

def warn (mismatch : Mismatch) (range : Option SourceRange) : Lower Unit :=
  report (.mismatch mismatch) range

/-- Reports a construct that Kotlin lacks, and leaves a comment in its place. -/
def refuse (obstacle : Obstacle) (range : Option SourceRange) : Lower Kotlin.Node := do
  report (.noEquivalent obstacle) range
  return .comment obstacle.message range

/-- The Kotlin type for a Swift type; `Any` where there is none, which is reported. -/
def lowerTy (ty : Ty) (range : Option SourceRange) : Lower Kotlin.Ty :=
  match kotlinType ty with
  | .ok mapped => pure mapped
  | .error cause => do
    report (.noEquivalent (.ty ty cause)) range
    return .named "Any" []

/-! ## Enum cases -/

def nameCase (enum case : String) (style : CaseStyle) : Lower String := do
  let (name, cases) := (← get).cases.name enum case style
  modify fun state => { state with cases }
  return name

/-- The style that the form of an enum asks for. -/
def caseStyle (types : DeclaredTypes) (enum : String) : CaseStyle :=
  match (types.enum? enum).map enumForm with
  | some .sealedClass => .upperCamel
  | _ => .upperSnake

def caseName (enum case : String) : Lower String := do
  nameCase enum case (caseStyle (← types) enum)

/-- A reference to a case of an enum. -/
def caseReference (enum case : String) (range : Option SourceRange) : Lower Kotlin.Node := do
  let name ← caseName enum case
  return .member (.reference (identifier enum) range) name range

end SwiftToKotlin.Lowering
