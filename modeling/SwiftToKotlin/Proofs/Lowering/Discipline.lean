import SwiftToKotlin.Proofs.Lowering.Building.Declaration

/-!
# What every lowering keeps

A discipline is a pair of relations between states that the single steps of lowering keep: an inner
one for values, and a weaker outer one for statements, which may declare locals. The lowering of
every construct is built of these steps and of the lowering of its parts, so trees of any height
keep what the steps keep.
-/

namespace SwiftToKotlin.Lowering

open Swift (Node Argument Ty EnumCaseDecl Role)
open Frame (Builds)

/-- Relations between the state before and the state after, and that the steps of lowering keep
them. What is done in a block of its own only has to keep there what statements keep. -/
structure Discipline where
  /-- Kept by every lowering of a value. -/
  value : State → State → Prop
  /-- Kept by every lowering of a statement, which may declare locals. -/
  statement : State → State → Prop
  value_preorder : IsPreorder State value
  statement_preorder : IsPreorder State statement
  statement_of_value : ∀ s t, value s t → statement s t
  report : ∀ cause range, Keeps value (report cause range)
  nameCase : ∀ enum case style, Keeps value (nameCase enum case style)
  reference : ∀ name range, Keeps value (Expression.reference name range)
  declare : ∀ name ty, Keeps statement (declare name ty)
  narrow : ∀ name ty, Keeps statement (narrow name ty)
  declareFresh : ∀ name ty, Keeps statement (declareFresh name ty)
  /-- Other surroundings, but for those of a closure, which is entered in its own way. -/
  surrounded_value : ∀ {α : Type} {action : Lower α} {change : Surroundings → Surroundings},
    (∀ around, around.closureDepth = 0 → (change around).closureDepth = 0) →
      Keeps value action → Keeps value (surrounded change action)
  surrounded_statement : ∀ {α : Type} {action : Lower α} {change : Surroundings → Surroundings},
    (∀ around, around.closureDepth = 0 → (change around).closureDepth = 0) →
      Keeps statement action → Keeps statement (surrounded change action)
  inBlock : ∀ {α : Type} {action : Lower α}, Keeps statement action → Keeps value (inBlock action)
  inClosure : ∀ {α : Type} {action : Lower α},
    Keeps statement action → Keeps value (inClosure action)

attribute [instance] Discipline.value_preorder Discipline.statement_preorder

/-! ## Derived steps -/

namespace Discipline

variable {α : Type} (rules : Discipline)

/-- What lowering in a role keeps. -/
def relation : Role → State → State → Prop
  | .value => rules.value
  | .statement => rules.statement

instance : IsPreorder State (rules.relation role) := by
  cases role with
  | value => exact rules.value_preorder
  | statement => exact rules.statement_preorder

theorem keepsStatement (h : Keeps rules.value action) :
    Keeps rules.statement action :=
  h.mono rules.statement_of_value

theorem keepsIn (role : Role) (h : Keeps rules.value action) :
    Keeps (rules.relation role) action := by
  cases role with
  | value => exact h
  | statement => exact rules.keepsStatement h

theorem surrounded (hchange : ∀ around, around.closureDepth = 0 → (change around).closureDepth = 0)
    (h : Keeps (rules.relation role) action) :
    Keeps (rules.relation role) (Lowering.surrounded change action) := by
  cases role with
  | value => exact rules.surrounded_value hchange h
  | statement => exact rules.surrounded_statement hchange h

theorem withinCase (inCase : Bool) (h : Keeps rules.value action) :
    Keeps rules.value (withinCase inCase action) :=
  rules.surrounded_value (fun _ haround => haround) h

theorem warn (mismatch : Mismatch) (range) : Keeps rules.value (warn mismatch range) :=
  rules.report _ _

theorem refuse (obstacle : Obstacle) (range) : Keeps rules.value (refuse obstacle range) :=
  (rules.report _ _).bind fun _ => .pure _

theorem lowerTy (ty : Ty) (range) : Keeps rules.value (lowerTy ty range) :=
  silent_lowerTy ty range _ fun _ _ _ _ => rules.report _ _

end Discipline

/-! ## Parts -/

/-- The lowering of the parts keeps what the discipline says. -/
structure Descent.Follows (descent : Descent) (rules : Discipline) : Prop where
  statement : ∀ node, Keeps rules.statement (descent.statement node)
  value : ∀ node, Keeps rules.value (descent.value node)

section Rules

variable {α : Type} {frame : Frame} {action : Descent → Lower α} {parts : α → List Kotlin.Node}
  {known : α → Prop} (hgiven : ∀ name, frame.given name)
  (h : frame.Builds role place made action parts known)

include hgiven h

/-- If names are no matter, then what is known of a result holds whatever is given for parts. -/
theorem Frame.Builds.known_run (descent context state) :
    known (((action descent).run context).run state).1 := by
  induction h generalizing state with
  | value | statement | declare | narrow | reference | refuse | refuseIf | breakStmt => trivial
  | given _ hknown => exact hknown
  | knowing _ _ ih ihf => exact ihf _ (ih state) _
  | handing _ _ ih => exact ih state
  | silent _ hknown => exact hknown context state
  | nameCase | declareFresh => exact hgiven _
  | entering _ _ ih | expecting _ _ ih | inBlock _ ih | inClosure _ ih => exact ih _
  | withScope _ _ _ ih => exact ih _

/-- What is built by the rules keeps what the single steps keep. -/
theorem Frame.Builds.keeps (below : descent.Follows rules) :
    Keeps (rules.relation role) (action descent) := by
  induction h with
  | value => exact rules.keepsIn _ (below.value _)
  | statement => exact below.statement _
  | given => exact .pure _
  | knowing h _ ih ihf =>
    intro context state
    exact trans_of _ (ih context state) (ihf _ (h.known_run hgiven descent context state) _ _)
  | handing _ _ ih => exact ih
  | silent h => exact h _ fun _ _ _ _ => rules.keepsIn _ (rules.report _ _)
  | nameCase => exact rules.keepsIn _ (rules.nameCase _ _ _)
  | declare => exact rules.declare _ _
  | narrow => exact rules.narrow _ _
  | declareFresh => exact rules.declareFresh _ _
  | reference => exact rules.keepsIn _ (rules.reference _ _)
  | refuse => exact rules.keepsIn _ (rules.refuse _ _)
  | refuseIf _ _ _ ih =>
    refine keeps_surroundings.bind fun _ => ?_
    split
    · exact rules.keepsIn _ (rules.refuse _ _)
    · exact ih
  | breakStmt =>
    refine keeps_surroundings.bind fun _ => ?_
    split
    · exact rules.keepsIn _ (rules.refuse _ _)
    · exact .pure _
  | @entering _ _ _ _ _ _ _ body hbody _ ih =>
    refine rules.surrounded (fun around haround => ?_) ih
    cases body with
    | closure => exact absurd rfl hbody
    | function => rfl
    | loop | switchCase => exact haround
  | withScope _ _ _ ih | expecting _ _ ih => exact rules.surrounded (fun _ haround => haround) ih
  | inBlock _ ih => exact rules.keepsIn _ (rules.inBlock ih)
  | inClosure _ ih => exact rules.keepsIn _ (rules.inClosure ih)

end Rules

variable {descent : Descent} (below : descent.Follows rules)

include below

/-- Where nothing is forbidden, only the rules matter. -/
theorem Descent.Follows.of_builds {α : Type} (role : Role) {action : Descent → Lower α}
    {parts : α → List Kotlin.Node} {known : α → Prop}
    (h : Frame.free.Builds role {} made action parts known) :
    Keeps (rules.relation role) (action descent) :=
  h.keeps (fun _ => trivial) below

theorem keeps_sequence (nodes) : Keeps rules.statement (descent.sequence nodes) :=
  below.of_builds .statement (builds_sequence fun _ _ => trivial)

theorem keeps_statements (nodes) : Keeps rules.value (descent.statements nodes) :=
  below.of_builds .value (builds_statements fun _ _ => trivial)

theorem keeps_kept (node : Node) : Keeps rules.value (descent.kept node) :=
  below.of_builds .value (builds_kept trivial)

theorem Call.keeps_withArguments (callee arguments names range) :
    Keeps rules.value (withArguments descent callee arguments names range) :=
  below.of_builds .value (builds_withArguments (fun _ _ => trivial) callee names)

theorem Statement.keeps_whenCondition (pattern : Node) :
    Keeps rules.value (whenCondition descent pattern) :=
  below.of_builds .value (builds_whenCondition trivial)

theorem Statement.keeps_whenBranch (case) : Keeps rules.value (whenBranch descent case) :=
  below.of_builds .value (builds_whenBranch (fun _ _ => trivial) fun _ _ => trivial)

theorem TypeBody.keeps_members (hscope : scope.receiver? = none) (nodes) :
    Keeps rules.value (members descent scope nodes) :=
  below.of_builds .value (builds_members hscope fun _ _ => trivial)

theorem TypeBody.keeps_constructorProperties (nodes) :
    Keeps rules.statement (constructorProperties descent nodes) :=
  below.of_builds .statement (builds_constructorProperties (fun _ _ _ _ => trivial)
    fun _ _ _ _ _ _ => trivial)

theorem Enum.keeps_rawValue (rawType : String) (next case range) :
    Keeps rules.value (rawValue descent rawType next case range) :=
  below.of_builds .value (builds_rawValue rawType next fun _ _ => trivial)

theorem Enum.keeps_entries (enum : String) (rawType next cases) :
    Keeps rules.value (entries descent enum rawType next cases) :=
  below.of_builds .value (builds_entries enum rawType next fun _ _ _ _ => trivial)

theorem Enum.keeps_caseClass (enum : String) (case range) :
    Keeps rules.value (caseClass enum case range) :=
  below.of_builds .value (builds_caseClass enum fun _ _ => trivial)

omit below in
theorem Frame.lowers_free (place) (node : Node) : Frame.free.Lowers place node :=
  ⟨fun _ _ _ => trivial, fun _ _ _ => trivial, fun _ _ => trivial, fun _ _ _ _ _ => trivial,
    fun _ _ _ => trivial, fun _ _ _ => trivial⟩

theorem keeps_lowerStatement (node : Node) : Keeps rules.statement (lowerStatement descent node) :=
  below.of_builds .statement (builds_lowerStatement
    ⟨Frame.lowers_free _ node, fun _ _ => trivial, fun _ _ => trivial⟩)

theorem Expression.keeps_lower (node : Node) : Keeps rules.value (lower descent node) :=
  below.of_builds .value (builds_lower ⟨Frame.lowers_free _ node, fun _ => trivial⟩)

omit below in
/-- Trees of any height keep what the steps keep. -/
theorem descend_follows (rules) (height : Nat) : (descend height).Follows rules := by
  induction height with
  | zero => exact ⟨fun _ => .pure _, fun _ => .pure _⟩
  | succ height ih => exact ⟨keeps_lowerStatement ih, Expression.keeps_lower ih⟩

end SwiftToKotlin.Lowering
