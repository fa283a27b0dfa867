import SwiftToKotlin.Proofs.Kotlin.Relocation

/-!
# Jumps in a Kotlin tree

A jump in the body of a function, a constructor or an accessor stays in that body. Everywhere else
it surfaces in the tree. Kotlin lets a `return` in a lambda leave the function around the lambda, so
a search for jumps may look into lambdas or pass over them.
-/

namespace SwiftToKotlin.Kotlin

variable {α β : Type}

inductive Jump
  | returning
  | breaking
  | continuing
  deriving DecidableEq

/-- The jump that a layer is. -/
@[simp] def Construct.jump? : Construct α → Option Jump
  | returnStmt _ => some .returning
  | breakStmt => some .breaking
  | continueStmt => some .continuing
  | _ => none

/-- The parts of a layer that are in no body of its own. The body of a lambda counts as one only if
lambdas are passed over. -/
@[simp] def Construct.openParts (lambdas : Bool) : Construct α → List α
  | function decl => decl.params.flatMap Param.parts
  | property decl => decl.init.toList
  | secondaryConstructor params _ => params.flatMap Param.parts
  | lambda _ body => if lambdas then body else []
  | construct => construct.parts

theorem Construct.openParts_subset (lambdas : Bool) (construct : Construct α) :
    construct.openParts lambdas ⊆ construct.parts := by
  cases construct with
  | lambda names body => cases lambdas <;> simp
  | function | property | secondaryConstructor => simp
  | _ => exact List.Subset.refl _

/-- The node stands in a tree outside of the bodies of functions, constructors and accessors, and
outside of lambdas if those are passed over. -/
inductive Node.SurfacesIn (lambdas : Bool) (node : Node) : Node → Prop
  | here : SurfacesIn lambdas node node
  | part (hpart : part ∈ whole.construct.openParts lambdas)
      (h : SurfacesIn lambdas node part) : SurfacesIn lambdas node whole

/-- What is looked for in a tree. In lambdas only returns are: a `break` or a `continue` in one
belongs to a loop in it. -/
structure Search where
  kinds : Jump → Bool
  lambdas : Bool
  returning_of_lambdas : lambdas = true → ∀ jump, kinds jump = true → jump = .returning

namespace Search

/-- All returns, also those in lambdas. -/
def returns : Search where
  kinds jump := jump == .returning
  lambdas := true
  returning_of_lambdas := by simp

/-- All jumps outside of lambdas. -/
def outsideLambdas : Search where
  kinds _ := true
  lambdas := false
  returning_of_lambdas := by simp

variable (search : Search)

/-- A jump of the kinds surfaces in the tree. -/
def Finds (node : Node) : Prop :=
  ∃ jump : Node, jump.construct.jump?.any search.kinds = true ∧
    jump.SurfacesIn search.lambdas node

/-- A jump of the kinds surfaces in one of the trees. -/
def FindsAmong (nodes : List Node) : Prop :=
  ∃ node ∈ nodes, search.Finds node

variable {search}

@[simp] theorem findsAmong_nil : ¬ search.FindsAmong [] := by
  simp [FindsAmong]

@[simp] theorem findsAmong_cons :
    search.FindsAmong (node :: nodes) ↔ search.Finds node ∨ search.FindsAmong nodes := by
  simp [FindsAmong]

@[simp] theorem findsAmong_append :
    search.FindsAmong (nodes ++ more) ↔ search.FindsAmong nodes ∨ search.FindsAmong more := by
  simp only [FindsAmong, List.mem_append, or_and_right, exists_or]

@[simp] theorem findsAmong_flatMap {items : List α} :
    search.FindsAmong (items.flatMap f) ↔ ∃ item ∈ items, search.FindsAmong (f item) := by
  simp only [FindsAmong]
  grind

@[simp] theorem findsAmong_flatten {lists : List (List Node)} :
    search.FindsAmong lists.flatten ↔ ∃ nodes ∈ lists, search.FindsAmong nodes := by
  rw [← List.flatMap_id', findsAmong_flatMap]

@[simp] theorem findsAmong_ite [Decidable p] :
    search.FindsAmong (if p then nodes else []) ↔ p ∧ search.FindsAmong nodes := by
  split <;> simp [*]

/-- A tree is searched layer by layer. -/
@[simp] theorem finds_mk :
    search.Finds ⟨construct, range⟩ ↔ construct.jump?.any search.kinds = true ∨
      search.FindsAmong (construct.openParts search.lambdas) := by
  constructor
  · rintro ⟨jump, hkind, hsurfaces⟩
    cases hsurfaces with
    | here => exact .inl hkind
    | part hpart h => exact .inr ⟨_, hpart, jump, hkind, h⟩
  · rintro (hkind | ⟨part, hpart, jump, hkind, h⟩)
    · exact ⟨_, hkind, .here⟩
    · exact ⟨jump, hkind, .part hpart h⟩

/-! ## Small trees -/

@[simp] theorem not_finds_comment (text : String) (range) :
    ¬ search.Finds (.comment text range) := by
  simp [Node.comment]

@[simp] theorem not_finds_reference (name : String) (range) :
    ¬ search.Finds (.reference name range) := by
  simp [Node.reference]

@[simp] theorem not_finds_literal (value : Literal) (range) :
    ¬ search.Finds (.literal value range) := by
  simp [Node.literal]

@[simp] theorem finds_member : search.Finds (.member base name range) ↔ search.Finds base := by
  simp [Node.member]

@[simp] theorem finds_call :
    search.Finds (.call callee args range) ↔ search.Finds callee ∨ search.FindsAmong args := by
  simp [Node.call, FindsAmong]

@[simp] theorem finds_binary :
    search.Finds (.binary op lhs rhs range) ↔ search.Finds lhs ∨ search.Finds rhs := by
  simp [Node.binary]

/-- In a class whose header shows no jump the members show what there is. -/
theorem findsAmong_classDef {shown : Prop}
    (hparams : ∀ param ∈ decl.params, ¬ search.FindsAmong param.parts)
    (hentries : ∀ entry ∈ decl.entries, ¬ search.FindsAmong entry.args)
    (hmembers : search.FindsAmong decl.members ↔ shown) :
    search.FindsAmong [⟨.classDef decl, range⟩] ↔ shown := by
  have hheader : ¬ search.FindsAmong
      (decl.params.flatMap Param.parts ++ decl.entries.flatMap EnumEntry.args) := by
    rw [findsAmong_append, findsAmong_flatMap, findsAmong_flatMap]
    rintro (⟨param, hparam, h⟩ | ⟨entry, hentry, h⟩)
    · exact hparams param hparam h
    · exact hentries entry hentry h
  have hparts : search.FindsAmong [⟨.classDef decl, range⟩] ↔ search.FindsAmong decl.parts := by
    simp
  rw [hparts, ClassDef.parts, findsAmong_append, hmembers]
  exact or_iff_right hheader

end Search

end SwiftToKotlin.Kotlin
