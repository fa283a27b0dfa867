import SwiftToKotlin.Lowering.Program
import SwiftToKotlin.Proofs.Swift.Positions

/-!
# Visits of lowering

Lowering goes down a tree by asking for the lowering of parts. A visit is one such request: a node,
the role that it is lowered in, and the state at that moment. A construct asks for a visit if
another answer there, and nowhere else, can change what becomes of the construct. What is asked for
again and again from the root on is reached. Every visit that is reached has a place in the tree:
the body that it stands in and the declaration that it is a member of.
-/

namespace SwiftToKotlin.Lowering

open Swift (Node Role Construct)

/-! ## Places -/

/-- The bodies that a jump can refer to. Initializers and accessors are functions here. -/
inductive Body
  | loop
  | switchCase
  | closure
  | function
  deriving DecidableEq

/-- What a declaration is a member of. -/
inductive Owner
  | file
  | type
  | protocol
  | extension
  deriving DecidableEq

/-- Where in a tree a node stands. -/
structure Place where
  /-- The innermost body around it. -/
  body : Option Body := none
  /-- What the innermost members around it belong to. -/
  owner : Owner := .file
  /-- How many closures are around it, up to the innermost function. -/
  closures : Nat := 0
  deriving DecidableEq

namespace Place

def enter (place : Place) : Body → Place
  | .closure => { place with body := some .closure, closures := place.closures + 1 }
  | .function => { place with body := some .function, closures := 0 }
  | body => { place with body := some body }

/-- The body that parts in a role make up, if they make up one. The value that a closure returns
last is in its body. -/
def body? : Construct Node → Role → Option Body
  | .function _, .statement => some .function
  | .initializer _ _, .statement => some .function
  | .variableDecl _, .statement => some .function
  | .whileStmt _ _, .statement => some .loop
  | .repeatWhile _ _, .statement => some .loop
  | .forEach _ _ _, .statement => some .loop
  | .switchStmt _ _, .statement => some .switchCase
  | .closure _ _, _ => some .closure
  | _, _ => none

/-- What a part is a member of, if the construct has members. The raw values of an enum are not
among them, and types in an extension move to the file. -/
def owner? : Construct Node → Role → Node → Option Owner
  | .typeDecl .protocolType _, _, _ => some .protocol
  | .typeDecl .enumType _, .value, _ => none
  | .typeDecl _ _, _, _ => some .type
  | .extensionDecl _ _, _, part => some (if TypeBody.isNestedType part then .file else .extension)
  | _, _, _ => none

/-- The place of a part of a construct. The part may be further down, such as an item of the block
after `else` or the initial value of a member, but then there is no body in between. -/
def within (place : Place) (construct : Construct Node) (role : Role) (part : Node) : Place :=
  let inside := ((body? construct role).map place.enter).getD place
  { inside with owner := (owner? construct role part).getD inside.owner }

/-- What Kotlin lacks for a construct because of the place where it stands. -/
def obstacle? (place : Place) : Construct Node → Option Obstacle
  | .breakStmt => if place.body = some .switchCase then some .breakInCase else none
  | .returnStmt _ => if 0 < place.closures then some .returnInClosure else none
  | .initializer _ _ => if place.owner = .type then none else some .initializerInExtension
  | .variableDecl decl =>
    if decl.isStored ∧ place.owner = .extension then some (.storedPropertyInExtension decl.name)
    else none
  | _ => none

end Place

/-- Whether an obstacle is due to the place of a construct. -/
def Obstacle.isPlaced : Obstacle → Bool
  | breakInCase => true
  | returnInClosure => true
  | initializerInExtension => true
  | storedPropertyInExtension _ => true
  | statementAsValue _ => true
  | _ => false

/-! ## What lowering knows of the place -/

/-- The Kotlin type that is written for a Swift type. -/
def writtenType (ty : Swift.Ty) : Kotlin.Ty :=
  (kotlinType ty).toOption.getD (.named "Any" [])

theorem lowerTy_fst (ty : Swift.Ty) (range context state) :
    (((lowerTy ty range).run context).run state).1 = writtenType ty := by
  unfold lowerTy writtenType
  cases kotlinType ty <;> rfl

/-- The Kotlin type that the members of an extension extend. -/
def extensionType (extended : String) : Kotlin.Ty :=
  ((Swift.Ty.parse extended).toOption.map writtenType).getD (.named extended [])

theorem TypeBody.extensionReceiver_fst (extended : String) (range context state) :
    (((extensionReceiver extended range).run context).run state).1 = extensionType extended := by
  unfold extensionReceiver extensionType
  cases Swift.Ty.parse extended with
  | error fault => rfl
  | ok ty => exact lowerTy_fst ty range context state

def Scope.owner : Scope → Owner
  | topLevel => .file
  | type _ => .type
  | protocol => .protocol
  | extension _ _ => .extension

theorem Scope.isType_iff (scope : Scope) : scope.isType = true ↔ scope.owner = .type := by
  cases scope <;> simp [isType, owner]

theorem Scope.isSome_receiver?_iff (scope : Scope) :
    scope.receiver?.isSome = true ↔ scope.owner = .extension := by
  cases scope <;> simp [receiver?, owner]

/-- The surroundings tell the place. -/
structure Place.Matches (place : Place) (around : Surroundings) : Prop where
  inCase : around.inCase = true ↔ place.body = some .switchCase
  owner : around.scope.owner = place.owner
  closures : around.closureDepth = place.closures

/-- The place that surroundings tell. -/
def Place.ofSurroundings (around : Surroundings) : Place where
  body := if around.inCase then some .switchCase else none
  owner := around.scope.owner
  closures := around.closureDepth

theorem Place.matches_ofSurroundings (around) :
    (Place.ofSurroundings around).Matches around where
  inCase := by simp [Place.ofSurroundings]
  owner := rfl
  closures := rfl

/-- How the surroundings change on entering a body. -/
def Body.change (around : Surroundings) : Body → Surroundings
  | loop => { around with inCase := false }
  | switchCase => { around with inCase := true }
  | closure => { around with closureDepth := around.closureDepth + 1, inCase := false }
  | function => { around with closureDepth := 0, inCase := false }

namespace Place.Matches

variable {place : Place}

theorem outermost : Matches {} {} where
  inCase := by simp
  owner := rfl
  closures := rfl

theorem enter (h : place.Matches around) (body : Body) :
    (place.enter body).Matches (body.change around) := by
  cases body with
  | loop => exact ⟨by simp [Place.enter, Body.change], h.owner, h.closures⟩
  | switchCase => exact ⟨by simp [Place.enter, Body.change], h.owner, h.closures⟩
  | closure => exact ⟨by simp [Place.enter, Body.change], h.owner, congrArg (· + 1) h.closures⟩
  | function => exact ⟨by simp [Place.enter, Body.change], h.owner, rfl⟩

theorem withScope (h : place.Matches around) (scope : Scope) :
    Matches { place with owner := scope.owner } { around with scope } :=
  { h with owner := rfl }

theorem expecting (h : place.Matches around) (expectedEnum) :
    place.Matches { around with expectedEnum } :=
  { h with }

end Place.Matches

/-! ## Visits -/

/-- A node that is lowered in a role, and the state in which that begins. -/
structure Visit where
  role : Role
  node : Node
  state : State

namespace Descent

/-- What a visit ends with: the nodes made and the state left behind. -/
def outcome (descent : Descent) (context : Context) (visit : Visit) : List Kotlin.Node × State :=
  match visit.role with
  | .statement => ((descent.statement visit.node).run context).run visit.state
  | .value =>
    let result := ((descent.value visit.node).run context).run visit.state
    ([result.1], result.2)

/-- The lowering of constructs from the lowering of their parts. -/
def above (below : Descent) : Descent :=
  ⟨lowerStatement below, Expression.lower below⟩

end Descent

theorem descend_succ (height : Nat) : descend (height + 1) = (descend height).above :=
  rfl

/-- The outcome of the whole depends on that of the part: it can be changed by an answer that is
different for the part and for no other visit. -/
def Asks (context : Context) (below : Descent) (whole part : Visit) : Prop :=
  ∃ other : Descent,
    (∀ visit, visit ≠ part → other.outcome context visit = below.outcome context visit) ∧
      other.above.outcome context whole ≠ below.above.outcome context whole

/-- What a tree is lowered with. -/
def Context.ofRoot (droppedImports : List String) (root : Node) : Context :=
  { types := .ofTree root, droppedImports }

/-- The visits that lowering a tree leads to, with the height that is left for each and its place.
The diagnostics are those found before. -/
inductive Reached (droppedImports : List String) (root : Node) (diagnostics : List Diagnostic) :
    Nat → Place → Visit → Prop
  | root : Reached droppedImports root diagnostics root.height {}
      ⟨.statement, root, { diagnostics }⟩
  | part (hwhole : Reached droppedImports root diagnostics (height + 1) place whole)
      (hasks : Asks (.ofRoot droppedImports root) (descend height) whole part) :
      Reached droppedImports root diagnostics height
        (place.within whole.node.construct part.role part.node) part

end SwiftToKotlin.Lowering
