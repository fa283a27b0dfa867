import SwiftToKotlin.Proofs.Kotlin.Jumps

/-!
# Nodes that occur in a tree

A node occurs in a tree if it is the tree or occurs in one of its parts. What is built around nodes
contains them, and everything else in it is a layer around them. If the layers are known to be of
some kind, then a node of any other kind comes from one of those that they are built around.
-/

namespace SwiftToKotlin.Kotlin

namespace Node

/-- The node is the tree itself, or it occurs in a part of it. -/
inductive OccursIn (node : Node) : Node → Prop
  | here : OccursIn node node
  | part (hpart : part ∈ whole.construct.parts) (h : OccursIn node part) :
      OccursIn node whole

/-- The node occurs in one of the trees. -/
def OccursAmong (node : Node) (nodes : List Node) : Prop :=
  ∃ whole ∈ nodes, node.OccursIn whole

attribute [simp] OccursIn.here

variable {node : Node}

@[simp] theorem occursAmong_nil : ¬ node.OccursAmong [] := by
  rintro ⟨whole, hwhole, -⟩
  cases hwhole

@[simp] theorem occursAmong_cons :
    node.OccursAmong (first :: nodes) ↔ node.OccursIn first ∨ node.OccursAmong nodes := by
  simp [OccursAmong]

@[simp] theorem occursAmong_append :
    node.OccursAmong (nodes ++ more) ↔ node.OccursAmong nodes ∨ node.OccursAmong more := by
  simp only [OccursAmong, List.mem_append, or_and_right, exists_or]

@[simp] theorem occursIn_mk {construct : Construct Node} {range : Option SourceRange} :
    node.OccursIn ⟨construct, range⟩ ↔
      node = ⟨construct, range⟩ ∨ node.OccursAmong construct.parts := by
  constructor
  · intro h
    cases h with
    | here => exact .inl rfl
    | part hpart h => exact .inr ⟨_, hpart, h⟩
  · rintro (rfl | ⟨part, hpart, h⟩)
    · exact .here
    · exact .part hpart h

end Node

/-! ## What is collected from a tree -/

/-- If a tree collects what its parts do and something of its own, then all of it is the own of
nodes that occur in the tree. -/
theorem Node.mem_collected_iff {β : Type} {own collected : Node → List β}
    (hcollected : ∀ construct range, collected ⟨construct, range⟩ =
      own ⟨construct, range⟩ ++ construct.parts.flatMap collected) {b : β} {whole : Node} :
    b ∈ collected whole ↔ ∃ node : Node, node.OccursIn whole ∧ b ∈ own node := by
  constructor
  · intro h
    induction whole using Node.induction with
    | step construct range ih =>
      rw [hcollected, List.mem_append, List.mem_flatMap] at h
      rcases h with hown | ⟨part, hpart, hin⟩
      · exact ⟨_, .here, hown⟩
      · obtain ⟨node, hnode, hown⟩ := ih part hpart hin
        exact ⟨node, .part hpart hnode, hown⟩
  · rintro ⟨node, hnode, hown⟩
    induction hnode with
    | here =>
      obtain ⟨construct, range⟩ := node
      rw [hcollected]
      exact List.mem_append_left _ hown
    | @part part whole hpart _ ih =>
      obtain ⟨construct, range⟩ := whole
      rw [hcollected]
      exact List.mem_append_right _ (List.mem_flatMap.2 ⟨part, hpart, ih⟩)

theorem Construct.mem_note_iff {α : Type} {construct : Construct α} {range : Option SourceRange}
    {note : Note} : note ∈ construct.note range ↔ construct = .comment note.1 ∧ range = note.2 := by
  obtain ⟨text, place⟩ := note
  cases construct <;> simp [eq_comm]

/-- The comments among trees are the nodes that are comments. -/
theorem mem_notes_iff {note : Note} {nodes : List Node} :
    note ∈ notes nodes ↔ (Node.comment note.1 note.2).OccursAmong nodes := by
  have hcollected (construct : Construct Node) (range : Option SourceRange) :
      Node.comments ⟨construct, range⟩ =
        construct.note range ++ construct.parts.flatMap Node.comments :=
    Node.comments_mk construct range
  simp only [notes, List.mem_flatMap, Node.OccursAmong,
    @Node.mem_collected_iff _ (fun node => node.construct.note node.range) _ hcollected,
    Construct.mem_note_iff]
  constructor
  · rintro ⟨whole, hwhole, ⟨construct, range⟩, hin, rfl, rfl⟩
    exact ⟨whole, hwhole, hin⟩
  · rintro ⟨whole, hwhole, hin⟩
    exact ⟨whole, hwhole, _, hin, rfl, rfl⟩

/-! ## Nodes built around others -/

/-- All of `made` occurs in the nodes, whatever else occurs in them is plain, and so are the jumps
that surface in them only. -/
structure BuiltAround (plain : Node → Prop) (made nodes : List Node) : Prop where
  kept : ∀ node : Node, node.OccursAmong made → node.OccursAmong nodes
  fresh : ∀ node : Node, node.OccursAmong nodes → node.OccursAmong made ∨ plain node
  jumps : ∀ search : Search, search.FindsAmong nodes → search.FindsAmong made ∨
    ∃ node, plain node ∧ node.construct.jump?.any search.kinds = true

namespace BuiltAround

theorem refl (nodes) : BuiltAround plain nodes nodes :=
  ⟨fun _ h => h, fun _ h => .inl h, fun _ h => .inl h⟩

theorem mono (h : BuiltAround plain made nodes)
    (hplain : ∀ node, plain node → other node) : BuiltAround other made nodes :=
  ⟨h.kept, fun node hnode => (h.fresh node hnode).imp_right (hplain node), fun search hfound =>
    (h.jumps search hfound).imp_right fun ⟨jump, hjump, hkind⟩ => ⟨jump, hplain jump hjump, hkind⟩⟩

theorem trans (h : BuiltAround plain made nodes) (h' : BuiltAround plain nodes more) :
    BuiltAround plain made more :=
  ⟨fun node hnode => h'.kept node (h.kept node hnode),
    fun node hnode => (h'.fresh node hnode).elim (h.fresh node) .inr,
    fun search hfound => (h'.jumps search hfound).elim (h.jumps search) .inr⟩

theorem append (h : BuiltAround plain made nodes)
    (h' : BuiltAround plain others rest) : BuiltAround plain (made ++ others) (nodes ++ rest) where
  kept node hnode := by
    simp only [Node.occursAmong_append] at hnode ⊢
    exact hnode.imp (h.kept node) (h'.kept node)
  fresh node hnode := by
    simp only [Node.occursAmong_append] at hnode ⊢
    rcases hnode with hnode | hnode
    · exact (h.fresh node hnode).imp_left .inl
    · exact (h'.fresh node hnode).imp_left .inr
  jumps search hfound := by
    rw [Search.findsAmong_append] at hfound ⊢
    rcases hfound with hfound | hfound
    · exact (h.jumps search hfound).imp_left .inl
    · exact (h'.jumps search hfound).imp_left .inr

/-- The order of nodes does not matter, nor how often they stand there. -/
theorem of_mem_iff (h : ∀ node, node ∈ nodes ↔ node ∈ made) : BuiltAround plain made nodes where
  kept _ := fun ⟨whole, hwhole, hin⟩ => ⟨whole, (h whole).2 hwhole, hin⟩
  fresh _ := fun ⟨whole, hwhole, hin⟩ => .inl ⟨whole, (h whole).1 hwhole, hin⟩
  jumps _ := fun ⟨whole, hwhole, hfound⟩ => .inl ⟨whole, (h whole).1 hwhole, hfound⟩

/-- One more layer around the nodes. -/
theorem layer (hplain : plain ⟨construct, range⟩) (h : BuiltAround plain made construct.parts) :
    BuiltAround plain made [⟨construct, range⟩] where
  kept node hnode := ⟨_, List.mem_singleton_self _, Node.occursIn_mk.2 (.inr (h.kept node hnode))⟩
  fresh node := by
    rintro ⟨whole, hwhole, hin⟩
    rw [List.mem_singleton.1 hwhole, Node.occursIn_mk] at hin
    rcases hin with rfl | hin
    · exact .inr hplain
    · exact h.fresh node hin
  jumps search hfound := by
    rw [Search.findsAmong_cons, or_iff_left Search.findsAmong_nil, Search.finds_mk] at hfound
    rcases hfound with hkind | ⟨part, hpart, hfound⟩
    · exact .inr ⟨_, hplain, hkind⟩
    · exact h.jumps search ⟨part, construct.openParts_subset _ hpart, hfound⟩

/-- A layer that has the nodes as its parts. -/
theorem around (hplain : plain ⟨construct, range⟩)
    (h : ∀ node, node ∈ construct.parts ↔ node ∈ made) :
    BuiltAround plain made [⟨construct, range⟩] :=
  layer hplain (of_mem_iff h)

end BuiltAround

end SwiftToKotlin.Kotlin
