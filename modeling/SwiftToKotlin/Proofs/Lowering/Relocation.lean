import SwiftToKotlin.Lowering.Program
import SwiftToKotlin.Proofs.Kotlin.Relocation

/-!
# What lowering asks of a tree with other ranges

The questions that lowering asks of the declared types and of single nodes. None of them depends on
a range, so they are answered alike for a tree with other ranges; where the answer is a declaration
it is the one with other ranges.
-/

namespace SwiftToKotlin

open Swift (Node Ty TypeDecl EnumCaseDecl TypeKind)

namespace Swift

variable {α β : Type}

theorem VariableDecl.isStored_map (f : α → β) (decl : VariableDecl α) :
    (decl.map f).isStored = decl.isStored := by
  simp [isStored, VariableDecl.map]

theorem Construct.tag_carry (move) (f : α → β) (construct : Construct α) :
    (construct.carry move f).tag = construct.tag := by
  cases construct <;> rfl

end Swift

namespace Lowering

variable (move : Relocation)

/-! ## Declared types -/

def Declaration.relocate (move : Relocation) : Declaration → Declaration
  | .type kind decl => .type kind (decl.map (Node.relocate move))
  | .alias name ty => .alias name ty

theorem allDeclarations_eq_flatMap (nodes) :
    allDeclarations nodes = nodes.flatMap declarations := by
  induction nodes with
  | nil => rw [allDeclarations, List.flatMap_nil]
  | cons node rest ih => rw [allDeclarations, ih, List.flatMap_cons]

theorem declarations_relocate (node : Node) :
    declarations (node.relocate move) = (declarations node).map (Declaration.relocate move) := by
  induction node using Node.induction with
  | step construct range ih =>
    rw [Node.relocate_mk]
    have hall (nodes : List Node) (hparts : ∀ node ∈ nodes, node ∈ construct.parts) :
        allDeclarations (nodes.map (Node.relocate move)) =
          (allDeclarations nodes).map (Declaration.relocate move) := by
      rw [allDeclarations_eq_flatMap, allDeclarations_eq_flatMap, List.flatMap_map,
        List.map_flatMap, List.flatMap_def, List.flatMap_def,
        List.map_congr_left fun node hnode => ih node (hparts node hnode)]
    cases construct with
    | file items => exact hall _ fun _ => id
    | extensionDecl extended members => exact hall _ fun _ => id
    | unknown kind children => exact hall _ fun _ => id
    | typeDecl kind decl =>
      have hmembers := hall decl.members fun _ => id
      cases kind with
      | protocolType => rfl
      | _ => exact congrArg (_ :: ·) hmembers
    | _ => rfl

namespace DeclaredTypes

/-- The declared types of the tree with other ranges. -/
def relocate (move : Relocation) (types : DeclaredTypes) : DeclaredTypes :=
  ⟨types.declarations.map (Declaration.relocate move)⟩

theorem ofTree_relocate (root : Node) : ofTree (root.relocate move) = (ofTree root).relocate move :=
  congrArg DeclaredTypes.mk (declarations_relocate move root)

variable (types : DeclaredTypes)

@[simp] theorem ofKind_relocate (kind : TypeKind) :
    (types.relocate move).ofKind kind =
      (types.ofKind kind).map (TypeDecl.map (Node.relocate move)) := by
  unfold ofKind relocate
  rw [List.filterMap_map, List.map_filterMap]
  congr 1
  funext declaration
  rcases declaration with ⟨found, decl⟩ | ⟨name, ty⟩
  · simp only [Function.comp_apply, Declaration.relocate]
    split <;> rfl
  · rfl

@[simp] theorem find?_relocate (kind : TypeKind) (name : String) :
    (types.relocate move).find? kind name =
      (types.find? kind name).map (TypeDecl.map (Node.relocate move)) := by
  unfold find?
  rw [ofKind_relocate, List.find?_map]
  rfl

@[simp] theorem struct?_relocate (name : String) :
    (types.relocate move).struct? name =
      (types.struct? name).map (TypeDecl.map (Node.relocate move)) :=
  find?_relocate move types _ name

@[simp] theorem enum?_relocate (name : String) :
    (types.relocate move).enum? name = (types.enum? name).map (TypeDecl.map (Node.relocate move)) :=
  find?_relocate move types _ name

@[simp] theorem isClass_relocate (name : String) :
    (types.relocate move).isClass name = types.isClass name := by
  simp [isClass]

@[simp] theorem isProtocol_relocate (name : String) :
    (types.relocate move).isProtocol name = types.isProtocol name := by
  simp [isProtocol]

@[simp] theorem alias?_relocate (name : String) :
    (types.relocate move).alias? name = types.alias? name := by
  unfold alias? relocate
  rw [← List.map_reverse, List.findSome?_map]
  congr 1
  funext declaration
  cases declaration <;> rfl

@[simp] theorem isConstructible_relocate (name : String) :
    (types.relocate move).isConstructible name = types.isConstructible name := by
  simp [isConstructible]

@[simp] theorem isType_relocate (name : String) :
    (types.relocate move).isType name = types.isType name := by
  simp [isType]

@[simp] theorem isSubclassed_relocate (name : String) :
    (types.relocate move).isSubclassed name = types.isSubclassed name := by
  rw [isSubclassed, isSubclassed, isClass_relocate, ofKind_relocate, List.any_map]
  rfl

@[simp] theorem resolve_relocate (name : String) :
    (types.relocate move).resolve name = types.resolve name := by
  have hfollow (steps : Nat) (name : String) :
      (types.relocate move).follow steps name = types.follow steps name := by
    induction steps generalizing name with
    | zero => rfl
    | succ steps ih => simp only [follow, aliased?, alias?_relocate, ih]
  exact hfollow 8 name

/-! ### Members -/

variable (decl : TypeDecl Node)

@[simp] theorem casesOf_relocate :
    casesOf (decl.map (Node.relocate move)) =
      (casesOf decl).map (EnumCaseDecl.map (Node.relocate move)) := by
  unfold casesOf TypeDecl.map
  rw [List.filterMap_map, List.map_filterMap]
  congr 1
  funext member
  simp only [Function.comp_apply, Node.construct_relocate]
  cases member.construct <;> rfl

@[simp] theorem storedProperties_relocate :
    storedProperties (decl.map (Node.relocate move)) =
      (storedProperties decl).map (Swift.VariableDecl.map (Node.relocate move)) := by
  unfold storedProperties TypeDecl.map
  rw [List.filterMap_map, List.map_filterMap]
  congr 1
  funext member
  simp only [Function.comp_apply, Node.construct_relocate]
  cases member.construct with
  | variableDecl property =>
    change (if (property.map (Node.relocate move)).isStored && !property.isStatic then
        some (property.map (Node.relocate move)) else none) = Option.map _ (if _ then _ else _)
    rw [Swift.VariableDecl.isStored_map, apply_ite (Option.map _)]
    rfl
  | _ => rfl

theorem slot_map (param) : slot (param.map (Node.relocate move)) = slot param := by
  simp [slot, Swift.Param.map]

@[simp] theorem initializers_relocate :
    initializers (decl.map (Node.relocate move)) = initializers decl := by
  unfold initializers TypeDecl.map
  rw [List.filterMap_map]
  congr 1
  funext member
  simp only [Function.comp_apply, Node.construct_relocate]
  cases member.construct with
  | initializer params body =>
    simp [Swift.Construct.carry, Swift.Construct.map, Swift.Construct.relocate, slot_map]
  | _ => rfl

@[simp] theorem memberwise_relocate :
    memberwise (decl.map (Node.relocate move)) = memberwise decl := by
  simp [memberwise, Swift.VariableDecl.map]

@[simp] theorem case?_relocate (enum case : String) :
    (types.relocate move).case? enum case =
      (types.case? enum case).map (EnumCaseDecl.map (Node.relocate move)) := by
  unfold case? caseOf?
  rw [enum?_relocate]
  cases types.enum? enum with
  | none => rfl
  | some decl =>
    simp only [Option.map_some, Option.bind_some, casesOf_relocate, List.find?_map]
    rfl

@[simp] theorem hasCase_relocate (enum case : String) :
    (types.relocate move).hasCase enum case = types.hasCase enum case := by
  simp [hasCase]

@[simp] theorem enumForCase_relocate (case : String) :
    (types.relocate move).enumForCase case = types.enumForCase case := by
  simp [enumForCase, Function.comp_def, TypeDecl.map]

@[simp] theorem argumentNames_relocate (name : String) (labels) :
    (types.relocate move).argumentNames name labels = types.argumentNames name labels := by
  have hconstructors : (types.relocate move).constructors? name = types.constructors? name := by
    unfold constructors? relocate
    rw [List.findSome?_map]
    congr 1
    funext declaration
    rcases declaration with ⟨kind, decl⟩ | ⟨name, ty⟩
    · cases kind <;> simp [Declaration.relocate] <;> rfl
    · rfl
  rw [argumentNames, argumentNames, hconstructors]

@[simp] theorem caseArgumentNames_relocate (enum case : String) (labels) :
    (types.relocate move).caseArgumentNames enum case labels =
      types.caseArgumentNames enum case labels := by
  unfold caseArgumentNames
  rw [case?_relocate]
  cases types.case? enum case with
  | none => rfl
  | some found =>
    have hslots : caseSlots (found.map (Node.relocate move)) = caseSlots found := by
      rw [caseSlots, caseSlots, EnumCaseDecl.map, List.map_map]
      refine List.map_congr_left fun param _ => ?_
      rw [Function.comp_apply, slot_map]
      rfl
    rw [Option.map_some, Option.bind_some, Option.bind_some, hslots]

end DeclaredTypes

/-! ## Idioms -/

section Idioms

variable (node : Node)

@[simp] theorem rebinds_relocate (name : String) :
    rebinds name (node.relocate move) = rebinds name node := by
  unfold rebinds
  rw [Node.construct_relocate]
  cases node.construct <;> rfl

@[simp] theorem hasJump_relocate : hasJump (node.relocate move) = hasJump node := by
  refine Node.fold_relocate move ?_ node
  intro construct range
  cases construct with
  | switchStmt subject cases =>
    simp only [Swift.Construct.relocate, List.any_map]
    rfl
  | doCatch body catches =>
    simp only [Swift.Construct.relocate, List.any_map]
    rfl
  | _ => rfl

@[simp] theorem bindingStyle_relocate (name : String) (thenBranch) (hasElse : Bool) :
    bindingStyle name (node.relocate move) (thenBranch.map (Node.relocate move)) hasElse =
      bindingStyle name node thenBranch hasElse := by
  simp [bindingStyle]

@[simp] theorem isLiteral_relocate : isLiteral (node.relocate move) = isLiteral node := by
  unfold isLiteral
  rw [Node.construct_relocate]
  cases node.construct with
  | literal value => cases value <;> rfl
  | _ => rfl

@[simp] theorem structForm_relocate (decl : TypeDecl Node) :
    structForm (decl.map (Node.relocate move)) = structForm decl := by
  have hinit (property : Swift.VariableDecl Node) :
      (property.map (Node.relocate move)).init.any isLiteral = property.init.any isLiteral := by
    cases h : property.init <;> simp [Swift.VariableDecl.map, h]
  unfold structForm
  simp only [DeclaredTypes.initializers_relocate, DeclaredTypes.storedProperties_relocate,
    List.isEmpty_map, List.all_map, Function.comp_def, hinit]
  rfl

@[simp] theorem enumForm_relocate (decl : TypeDecl Node) :
    enumForm (decl.map (Node.relocate move)) = enumForm decl := by
  simp [enumForm, EnumCaseDecl.map]

@[simp] theorem caseStyle_relocate (types : DeclaredTypes) (enum : String) :
    caseStyle (types.relocate move) enum = caseStyle types enum := by
  simp [caseStyle, Function.comp_def]

end Idioms

/-! ## Inference -/

section Inference

variable (types : DeclaredTypes) (node : Node)

theorem typeIn_relocate {locals : Locals} (h : ∀ name, locals'.typeOf? name = locals.typeOf? name) :
    typeIn (types.relocate move) locals' (node.relocate move) = typeIn types locals node := by
  induction node using Node.induction with
  | step construct range ih =>
    cases construct with
    | reference name ty =>
      change ty.or (locals'.typeOf? name) = ty.or (locals.typeOf? name)
      rw [h]
    | literal value => cases value <;> rfl
    | wrapped form inner =>
      have hinner := ih inner (by simp [Swift.Construct.parts])
      cases form with
      | optionalTry => rfl
      | _ => exact hinner
    | call callee arguments =>
      obtain ⟨construct, range⟩ := callee
      simp only [Swift.Construct.carry, Swift.Construct.map, Swift.Construct.relocate,
        Node.relocate_mk]
      cases construct with
      | reference name ty => simp only [typeIn, DeclaredTypes.isConstructible_relocate]
      | _ => simp [typeIn]
    | _ => rfl

@[simp] theorem enumNamed?_relocate : enumNamed? (types.relocate move) = enumNamed? types := by
  have hresolve : (types.relocate move).resolve = types.resolve :=
    funext (DeclaredTypes.resolve_relocate move types)
  funext ty
  simp [enumNamed?, hresolve]

@[simp] theorem implicitEnum?_relocate (around) (case : String) (ty) :
    implicitEnum? (types.relocate move) around case ty = implicitEnum? types around case ty := by
  simp [implicitEnum?]

@[simp] theorem casePattern?_relocate (around) :
    casePattern? (types.relocate move) around (node.relocate move) =
      casePattern? types around node := by
  induction node using Node.induction with
  | step construct range ih =>
    cases construct with
    | implicitMember name ty =>
      simp [Swift.Construct.carry, Swift.Construct.map, Swift.Construct.relocate, casePattern?]
    | member base name =>
      obtain ⟨construct, range⟩ := base
      simp only [Swift.Construct.carry, Swift.Construct.map, Swift.Construct.relocate,
        Node.relocate_mk]
      cases construct with
      | reference owner ty => simp [casePattern?]
      | _ => simp [casePattern?]
    | call callee arguments => exact ih callee (by simp [Swift.Construct.parts])
    | _ => rfl

theorem chainTarget_relocate :
    chainTarget (node.relocate move) = Prod.map (Node.relocate move) id (chainTarget node) := by
  unfold chainTarget
  rw [Node.construct_relocate]
  cases node.construct with
  | wrapped form inner => cases form <;> rfl
  | _ => rfl

end Inference

/-! ## Single nodes -/

section Nodes

variable (node : Node)

@[simp] theorem Descent.isPlace_relocate :
    Descent.isPlace (node.relocate move) = Descent.isPlace node := by
  unfold isPlace
  rw [Node.construct_relocate]
  cases node.construct <;> rfl

@[simp] theorem Call.isClosure_relocate : isClosure (node.relocate move) = isClosure node := by
  unfold isClosure
  rw [Node.construct_relocate]
  cases node.construct <;> rfl

@[simp] theorem Expression.namedEnum?_relocate (types : DeclaredTypes) (name : String) :
    namedEnum? (types.relocate move) (node.relocate move) name = namedEnum? types node name := by
  unfold namedEnum?
  rw [Node.construct_relocate]
  cases node.construct with
  | reference owner ty =>
    simp [Swift.Construct.carry, Swift.Construct.map, Swift.Construct.relocate]
  | _ => rfl

@[simp] theorem Statement.isBreak_relocate : isBreak (node.relocate move) = isBreak node := by
  unfold isBreak
  rw [Node.construct_relocate]
  cases node.construct <;> rfl

@[simp] theorem Statement.isDiscard_relocate : isDiscard (node.relocate move) = isDiscard node := by
  unfold isDiscard
  rw [Node.construct_relocate]
  cases node.construct <;> rfl

@[simp] theorem TypeBody.isStatic_relocate : isStatic (node.relocate move) = isStatic node := by
  unfold isStatic
  rw [Node.construct_relocate]
  cases node.construct <;> rfl

@[simp] theorem TypeBody.isStoredProperty_relocate :
    isStoredProperty (node.relocate move) = isStoredProperty node := by
  unfold isStoredProperty
  rw [Node.construct_relocate]
  cases node.construct with
  | variableDecl decl =>
    change ((decl.map (Node.relocate move)).isStored && !decl.isStatic) = _
    rw [Swift.VariableDecl.isStored_map]
  | _ => rfl

@[simp] theorem TypeBody.isNestedType_relocate :
    isNestedType (node.relocate move) = isNestedType node := by
  unfold isNestedType
  rw [Node.construct_relocate]
  cases node.construct with
  | typeDecl kind decl => cases kind <;> rfl
  | _ => rfl

@[simp] theorem Enum.isEnumCase_relocate : isEnumCase (node.relocate move) = isEnumCase node := by
  unfold isEnumCase
  rw [Node.construct_relocate]
  cases node.construct <;> rfl

@[simp] theorem Enum.integerAfter?_relocate :
    integerAfter? (node.relocate move) = integerAfter? node := by
  unfold integerAfter?
  rw [Node.construct_relocate]
  cases node.construct with
  | literal value => cases value <;> rfl
  | _ => rfl

end Nodes

end Lowering

end SwiftToKotlin
