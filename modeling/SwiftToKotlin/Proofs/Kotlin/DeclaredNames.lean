import SwiftToKotlin.Proofs.Kotlin.Occurrence

/-!
# The names that a Kotlin tree declares

Every name that a declaration of a tree introduces, at any depth. A tree declares only names of a
kind if each layer of it does, so that a tree can be judged while it is put together.
-/

namespace SwiftToKotlin.Kotlin

variable {α β : Type}

/-- The names that a layer declares itself. -/
@[simp] def Construct.names : Construct α → List String
  | function decl => decl.name :: decl.params.map Param.name
  | property decl => [decl.name]
  | classDef decl => decl.name :: (decl.params.map Param.name ++ decl.entries.map EnumEntry.name)
  | secondaryConstructor params _ => params.map Param.name
  | typeAlias name _ => [name]
  | forStmt binder _ _ => [binder]
  | tryCatch _ catches => catches.map CatchBlock.name
  | lambda params _ => params
  | _ => []

theorem Construct.names_map (f : α → β) (construct : Construct α) :
    (construct.map f).names = construct.names := by
  cases construct <;>
    simp [Construct.map, FunctionDef.map, PropertyDef.map, ClassDef.map, Param.map, EnumEntry.map,
      CatchBlock.map, Function.comp_def]

namespace Node

/-- The names that a tree declares, from the root on. -/
def declaredNames (node : Node) : List String :=
  node.para fun construct _ => construct.names ++ construct.parts.flatMap Prod.snd

theorem declaredNames_mk (construct range) :
    declaredNames ⟨construct, range⟩ =
      construct.names ++ construct.parts.flatMap declaredNames := by
  rw [declaredNames, para_mk, Construct.parts_map, Construct.names_map, List.flatMap_map]
  rfl

/-- All names that the tree declares are of the kind. -/
def DeclaresOnly (Q : String → Prop) (node : Node) : Prop :=
  ∀ name ∈ node.declaredNames, Q name

end Node

/-- All names that the trees declare are of the kind. -/
def AllDeclareOnly (Q : String → Prop) (nodes : List Node) : Prop :=
  ∀ node ∈ nodes, node.DeclaresOnly Q

@[simp] theorem allDeclareOnly_nil : AllDeclareOnly Q [] := by
  simp [AllDeclareOnly]

@[simp] theorem allDeclareOnly_cons (node : Node) (rest) :
    AllDeclareOnly Q (node :: rest) ↔ node.DeclaresOnly Q ∧ AllDeclareOnly Q rest :=
  List.forall_mem_cons

@[simp] theorem allDeclareOnly_append (nodes more) :
    AllDeclareOnly Q (nodes ++ more) ↔ AllDeclareOnly Q nodes ∧ AllDeclareOnly Q more :=
  List.forall_mem_append

/-- A tree is judged layer by layer. -/
@[simp] theorem Node.declaresOnly_mk (construct range) :
    DeclaresOnly Q ⟨construct, range⟩ ↔
      (∀ name ∈ construct.names, Q name) ∧ AllDeclareOnly Q construct.parts := by
  simp only [AllDeclareOnly, DeclaresOnly, declaredNames_mk, List.mem_append]
  grind

/-- Trees declare only names of the kind if every node that occurs among them does. -/
theorem allDeclareOnly_iff :
    AllDeclareOnly Q nodes ↔
      ∀ node : Node, node.OccursAmong nodes → ∀ name ∈ node.construct.names, Q name := by
  simp only [AllDeclareOnly, Node.DeclaresOnly, Node.OccursAmong,
    @Node.mem_collected_iff _ (fun node => node.construct.names) _ Node.declaredNames_mk]
  grind

end SwiftToKotlin.Kotlin
