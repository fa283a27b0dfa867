import Mathlib.Data.List.Forall2
import Mathlib.Logic.Relation
import SwiftToKotlin.Proofs.Swift.Retelling

/-!
# Attributes are looked up

What is read of the attributes of a node is the first value under each of a few keys. Two dumps of
one shape whose attributes agree on these keys have one condensed form, in which every node has its
first values alone and in a fixed order, and the condensed form is a retelling: so both are read
alike. The order of attributes, repetitions and all other keys are free.
-/

namespace SwiftToKotlin

namespace Dump

abbrev Attributes :=
  List (String × String)

/-- The first values under the keys are the same. -/
def AgreeOn (keys : List String) (first second : Attributes) : Prop :=
  ∀ key ∈ keys, first.lookup key = second.lookup key

/-- A change of attributes: two neighbours with different keys change places, or an attribute goes
that repeats an earlier key or has none of the keys. -/
inductive Rearranges (keys : List String) : Attributes → Attributes → Prop
  | swap (before after : Attributes) (h : one.1 ≠ other.1) :
      Rearranges keys (before ++ one :: other :: after) (before ++ other :: one :: after)
  | repeated (before after : Attributes) {entry : String × String}
      (h : entry.1 ∈ before.map Prod.fst) :
      Rearranges keys (before ++ entry :: after) (before ++ after)
  | unread (before after : Attributes) (h : entry.1 ∉ keys) :
      Rearranges keys (before ++ entry :: after) (before ++ after)

/-- Trees of one shape. Nodes in the same place have the same kind and range, and attributes that
are related. -/
inductive Node.Resembles (R : Attributes → Attributes → Prop) : Node → Node → Prop
  | mk {kind : String} {children others : List Node}
      {range : Option SourceRange} (attributes : R first second)
      (below : List.Forall₂ (Node.Resembles R) children others) :
      Node.Resembles R ⟨kind, first, children, range⟩ ⟨kind, second, others, range⟩

/-! ## Changes that lookups do not notice -/

theorem lookup_cons_of_ne (h : key ≠ entry.1) (after : Attributes) :
    (entry :: after).lookup key = after.lookup key := by
  rw [List.lookup_cons, beq_false_of_ne h]

theorem lookup_append_cons_of_ne (h : key ≠ entry.1) (before after : Attributes) :
    (before ++ entry :: after).lookup key = (before ++ after).lookup key := by
  rw [List.lookup_append, List.lookup_append, lookup_cons_of_ne h]

theorem lookup_append_of_mem (after : Attributes) (h : key ∈ before.map Prod.fst) :
    (before ++ after).lookup key = before.lookup key := by
  obtain ⟨entry, hentry, rfl⟩ := List.mem_map.1 h
  have hsome : (before.lookup entry.1).isSome := List.lookup_isSome_iff.2 ⟨entry, hentry, by simp⟩
  rw [List.lookup_append, Option.or_of_isSome hsome]

theorem lookup_swap (key : String) (h : one.1 ≠ other.1) (before after : Attributes) :
    (before ++ one :: other :: after).lookup key =
      (before ++ other :: one :: after).lookup key := by
  by_cases hone : key = one.1
  · have hother : key ≠ other.1 := fun heq => h (hone.symm.trans heq)
    subst hone
    rw [lookup_append_cons_of_ne hother, List.lookup_append, List.lookup_append,
      List.lookup_cons_self, List.lookup_cons_self]
  · obtain ⟨otherKey, value⟩ := other
    rw [lookup_append_cons_of_ne hone, List.lookup_append, List.lookup_append, List.lookup_cons,
      List.lookup_cons, lookup_cons_of_ne hone]

theorem Rearranges.agreeOn (h : Rearranges keys first second) : AgreeOn keys first second := by
  intro key hkey
  cases h with
  | swap before after hne => exact lookup_swap key hne before after
  | @repeated before after entry hmem =>
    by_cases hentry : key = entry.1
    · rw [hentry, lookup_append_of_mem _ hmem, lookup_append_of_mem _ hmem]
    · exact lookup_append_cons_of_ne hentry before after
  | unread before after hnot =>
    exact lookup_append_cons_of_ne (fun heq => hnot (heq ▸ hkey)) before after

theorem agreeOn_of_eqvGen (h : Relation.EqvGen (Rearranges keys) first second) :
    AgreeOn keys first second := by
  induction h with
  | rel _ _ hstep => exact hstep.agreeOn
  | refl _ => exact fun _ _ => rfl
  | symm _ _ _ ih => exact fun key hkey => (ih key hkey).symm
  | trans _ _ _ _ _ ih ih' => exact fun key hkey => (ih key hkey).trans (ih' key hkey)

/-! ## Condensed dumps -/

/-- The first values under the keys, in the order of the keys. -/
def condensed (keys : List String) (attributes : Attributes) : Attributes :=
  keys.filterMap fun key => (attributes.lookup key).map (key, ·)

theorem lookup_condensed (keys attributes) (key : String) :
    (condensed keys attributes).lookup key =
      if key ∈ keys then attributes.lookup key else none := by
  induction keys with
  | nil => rfl
  | cons other rest ih =>
    by_cases heq : key = other
    · subst heq
      cases hfound : attributes.lookup key with
      | some value => simp [condensed, hfound]
      | none => simpa [condensed, hfound] using ih
    · have hkey : key ∈ other :: rest ↔ key ∈ rest := by simp [heq]
      rw [if_congr hkey rfl rfl, ← ih]
      cases hfound : attributes.lookup other with
      | some value => simpa [condensed, hfound] using lookup_cons_of_ne heq _
      | none => simp [condensed, hfound]

theorem condensed_congr (h : AgreeOn keys first second) :
    condensed keys first = condensed keys second :=
  List.filterMap_congr fun key hkey => by rw [h key hkey]

namespace Node

mutual

/-- The tree with nothing but first values under the keys. -/
def condense (keys : List String) : Node → Node
  | ⟨kind, attributes, children, range⟩ =>
    ⟨kind, condensed keys attributes, condenseAll keys children, range⟩

def condenseAll (keys : List String) : List Node → List Node
  | [] => []
  | node :: rest => condense keys node :: condenseAll keys rest

end

theorem condenseAll_eq_map (keys nodes) : condenseAll keys nodes = nodes.map (condense keys) := by
  induction nodes with
  | nil => rw [condenseAll, List.map_nil]
  | cons node rest ih => rw [condenseAll, ih, List.map_cons]

theorem condense_mk (keys) (kind : String) (attributes) (children range) :
    condense keys ⟨kind, attributes, children, range⟩ =
      ⟨kind, condensed keys attributes, children.map (condense keys), range⟩ := by
  rw [condense, condenseAll_eq_map]

/-- Trees that agree on the keys have one condensed form. -/
theorem Resembles.condense_eq {node : Node} (h : node.Resembles (AgreeOn keys) other) :
    node.condense keys = other.condense keys := by
  induction h using Resembles.rec (motive_2 := fun nodes others _ =>
    nodes.map (condense keys) = others.map (condense keys)) with
  | mk hattributes _ ih => rw [condense_mk, condense_mk, condensed_congr hattributes, ih]
  | nil => rfl
  | cons _ _ ih ih' => rw [List.map_cons, List.map_cons, ih, ih']

theorem Resembles.mono (hle : ∀ {a b}, R a b → S a b) {node : Node} (h : node.Resembles R other) :
    node.Resembles S other := by
  induction h using Resembles.rec (motive_2 := fun nodes others _ =>
    List.Forall₂ (Resembles S) nodes others) with
  | mk hattributes _ ih => exact .mk (hle hattributes) ih
  | nil => exact .nil
  | cons _ _ ih ih' => exact .cons ih ih'

end Node

end Dump

namespace Swift

/-- The condensed dump in place of the dump. -/
def Reading.Retelling.condensing : Reading.Retelling where
  retell := Dump.Node.condense keys
  move := id
  kind_retell raw := by
    cases raw
    rw [Dump.Node.condense]
  attr_retell raw key hkey := by
    cases raw
    rw [Dump.Node.condense]
    exact (Dump.lookup_condensed keys _ key).trans (if_pos hkey)
  children_retell raw := by
    cases raw
    rw [Dump.Node.condense_mk]
  range_retell raw := by
    cases raw
    rw [Dump.Node.condense]
    rfl
  retell_bare kind children range := by
    rw [Dump.Node.condense_mk]
    rfl

namespace Node

/-- A dump is read like its condensed form. -/
theorem ofDump_condense (raw found) :
    (ofDump (raw.condense Reading.keys)).run found = (ofDump raw).run found := by
  have hsame (diagnostics : List Diagnostic) :
      diagnostics.map (Diagnostic.relocate id) = diagnostics :=
    List.map_id diagnostics
  have hread : (ofDump (raw.condense Reading.keys)).run (found.map (Diagnostic.relocate id)) =
      (((ofDump raw).run found).1.relocate id,
        ((ofDump raw).run found).2.map (Diagnostic.relocate id)) :=
    ofDump_retell .condensing raw found
  rwa [hsame, hsame, relocate_id] at hread

/-- Dumps of one shape with the same first values under the keys that are read give the same tree
and the same diagnostics. So do dumps whose attributes have been rearranged: neighbours may change
places, and attributes that repeat a key or have any other one may come and go. -/
theorem ofDump_only_looks_up_attributes :
    (∀ first second : Dump.Node, first.Resembles (Dump.AgreeOn Reading.keys) second →
      ∀ found, (ofDump first).run found = (ofDump second).run found) ∧
    ∀ first second : Dump.Node,
      first.Resembles (Relation.EqvGen (Dump.Rearranges Reading.keys)) second →
        ∀ found, (ofDump first).run found = (ofDump second).run found := by
  have hagree (first second : Dump.Node)
      (h : first.Resembles (Dump.AgreeOn Reading.keys) second) (found : List Diagnostic) :
      (ofDump first).run found = (ofDump second).run found := by
    rw [← ofDump_condense first, ← ofDump_condense second, h.condense_eq]
  exact ⟨hagree, fun first second h => hagree first second (h.mono Dump.agreeOn_of_eqvGen)⟩

/-- A function of one parameter, with the attributes of the parameter as given. -/
def functionOf (attributes : Dump.Attributes) : Dump.Node :=
  ⟨"func_decl", [("name", "f")],
    [⟨"parameter_list", [], [⟨"parameter", attributes, [], none⟩], none⟩,
      ⟨"brace_stmt", [], [], none⟩], none⟩

/-- The type comes first, the name is repeated with another value, and there is a stray flag. -/
theorem rearranged_parameter_read_alike :
    functionOf [("type", "Int"), ("name", "x"), ("implicit", ""), ("name", "y")] ≠
        functionOf [("name", "x"), ("type", "Int")] ∧
      (ofDump (functionOf [("type", "Int"), ("name", "x"), ("implicit", ""), ("name", "y")])).run
          [] =
        (ofDump (functionOf [("name", "x"), ("type", "Int")])).run [] := by
  have hparameter : Relation.EqvGen (Dump.Rearranges Reading.keys)
      [("type", "Int"), ("name", "x"), ("implicit", ""), ("name", "y")]
      [("name", "x"), ("type", "Int")] :=
    .trans _ _ _
      (.rel _ _ (.repeated [("type", "Int"), ("name", "x"), ("implicit", "")] [] (by simp)))
      (.trans _ _ _ (.rel _ _ (.unread [("type", "Int"), ("name", "x")] [] (by decide)))
        (.rel _ _ (.swap [] [] (by decide))))
  refine ⟨by simp [functionOf], ofDump_only_looks_up_attributes.2 _ _ ?_ []⟩
  exact .mk (.refl _) (.cons (.mk (.refl _) (.cons (.mk hparameter .nil) .nil))
    (.cons (.mk (.refl _) .nil) .nil))

end Node

end Swift

end SwiftToKotlin
