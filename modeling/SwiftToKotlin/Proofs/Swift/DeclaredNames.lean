import SwiftToKotlin.Proofs.Swift.Placeholders

/-!
# The names that a Swift tree declares

Every name that a declaration or binding of a tree introduces, at any depth, as far as it becomes a
name of its own: a label is only a way to pass an argument, except for an associated value, which
has no other name than its label.
-/

namespace SwiftToKotlin.Swift

variable {α β : Type}

/-- The name under which an associated value can be found. -/
def Param.fieldName (param : Param α) : String :=
  param.label.getD param.name

/-- The name that a condition binds. -/
def Condition.names : Condition α → List String
  | expr _ => []
  | binding name _ _ => [name]

/-- The names that a layer declares itself. The cases of an enum are no names of their own, as they
are named together with the enum. -/
def Construct.names : Construct α → List String
  | function decl => decl.name :: decl.params.map Param.name
  | initializer params _ => params.map Param.name
  | variableDecl decl => [decl.name]
  | typeDecl _ decl => [decl.name]
  | enumCase decl => decl.params.map Param.fieldName
  | typeAlias name _ => [name]
  | ifStmt condition _ _ => condition.names
  | guardStmt condition _ => condition.names
  | forEach binder _ _ => [binder]
  | doCatch _ catches => catches.filterMap CatchClause.name
  | closure params _ => params
  | _ => []

theorem Construct.names_map (f : α → β) (construct : Construct α) :
    (construct.map f).names = construct.names := by
  have conditions (condition : Condition α) : (condition.map f).names = condition.names := by
    cases condition <;> rfl
  cases construct <;>
    simp [Construct.map, names, FunctionDecl.map, VariableDecl.map, TypeDecl.map, EnumCaseDecl.map,
      Param.map, Param.fieldName, CatchClause.map, conditions, Function.comp_def]

namespace Node

/-- The names that a tree declares, from the root on. -/
def declaredNames (node : Node) : List String :=
  node.fold fun construct _ => construct.names ++ construct.parts.flatten

theorem declaredNames_mk (construct range) :
    declaredNames ⟨construct, range⟩ =
      construct.names ++ construct.parts.flatMap declaredNames := by
  rw [declaredNames, fold_mk, Construct.parts_map, Construct.names_map, List.flatMap_def]
  rfl

/-- All names that the tree declares are of the kind. -/
def DeclaresOnly (S : String → Prop) (node : Node) : Prop :=
  ∀ name ∈ node.declaredNames, S name

end Node

/-- All names that the trees declare are of the kind. -/
abbrev AllDeclareOnly (S : String → Prop) (nodes : List Node) : Prop :=
  ∀ node ∈ nodes, node.DeclaresOnly S

namespace Node.DeclaresOnly

variable {node : Node} {construct : Construct Node}

theorem names (h : node.DeclaresOnly S) (hc : node.construct = construct) :
    ∀ name ∈ construct.names, S name := by
  subst hc
  cases node
  intro name hname
  apply h
  rw [declaredNames_mk]
  exact List.mem_append_left _ hname

theorem parts (h : node.DeclaresOnly S) (hc : node.construct = construct) :
    AllDeclareOnly S construct.parts := by
  subst hc
  cases node
  intro part hpart name hname
  apply h
  rw [declaredNames_mk]
  exact List.mem_append_right _ (List.mem_flatMap.2 ⟨part, hpart, hname⟩)

end Node.DeclaresOnly

end SwiftToKotlin.Swift
