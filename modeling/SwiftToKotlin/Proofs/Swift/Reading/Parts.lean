import Mathlib.Data.List.Basic
import SwiftToKotlin.Proofs.Dump.Relocation
import SwiftToKotlin.Proofs.Swift.Positions
import SwiftToKotlin.Swift.Reading

/-!
# Readings and the parts that they draw

A reading that succeeds has passed all its checks, so that facts about its result follow from its
steps. It looks up attributes by their keys and never asks for others than those listed here, and it
carries ranges along without looking at them. So the reading of a dump that is told in another way,
with the same values under these keys and with other ranges, gives the same or fails in the same
way. Both are followed through the steps of a reading at once.
-/

namespace SwiftToKotlin

namespace Dump.Node

/-- The part stands somewhere under the node. -/
inductive Below (part : Node) : Node → Prop
  | child (h : part ∈ whole.children) : Below part whole
  | deeper {inner : Node} (hinner : inner ∈ whole.children) (h : Below part inner) :
      Below part whole

/-- A part of a child. -/
theorem Below.grandchild {inner : Node} (hinner : inner ∈ whole.children)
    (h : part ∈ inner.children) : part.Below whole :=
  .deeper hinner (.child h)

/-- The return of the value alone. -/
def returned (value : Node) : Node :=
  ⟨"return_stmt", [], [value], value.range⟩

end Dump.Node

namespace Swift

open Dump.Node (Below)

variable {α β γ δ : Type}

/-! ## Layers with other ranges -/

def Condition.relocate (move : Relocation) : Condition α → Condition α
  | expr value => expr value
  | binding name value range => binding name value (move range)

def SwitchCase.relocate (move : Relocation) (case : SwitchCase α) : SwitchCase α :=
  { case with range := move case.range }

def CatchClause.relocate (move : Relocation) (clause : CatchClause α) : CatchClause α :=
  { clause with range := move clause.range }

/-- The layer with other ranges. Only conditions, cases and catch clauses have ranges of their
own. -/
def Construct.relocate (move : Relocation) : Construct α → Construct α
  | ifStmt condition thenBranch elseBranch => ifStmt (condition.relocate move) thenBranch elseBranch
  | guardStmt condition elseBranch => guardStmt (condition.relocate move) elseBranch
  | switchStmt subject cases => switchStmt subject (cases.map (SwitchCase.relocate move))
  | doCatch body catches => doCatch body (catches.map (CatchClause.relocate move))
  | construct => construct

/-- The layer over other parts and with other ranges. -/
def Construct.carry (move : Relocation) (f : α → β) (construct : Construct α) : Construct β :=
  (construct.map f).relocate move

namespace Reading

/-! ## Retellings -/

/-- The keys of the attributes that are ever asked for. -/
def keys : List String :=
  ["module", "name", "result", "type", "label", "kind", "inherits", "variable", "value", "operator",
    "static", "mutating", "throws", "override", "let", "default"]

/-- Another form of every node: of the same kind, with the same values under the keys, over the
other forms of its children, at another place. -/
structure Retelling where
  retell : Dump.Node → Dump.Node
  move : Relocation
  kind_retell : ∀ raw, (retell raw).kind = raw.kind
  attr_retell : ∀ raw, ∀ key ∈ keys, (retell raw).attr key = raw.attr key
  children_retell : ∀ raw, (retell raw).children = raw.children.map retell
  range_retell : ∀ raw, (retell raw).range = move raw.range
  /-- Nothing is added to a node without attributes. -/
  retell_bare : ∀ kind children range,
    retell ⟨kind, [], children, range⟩ = ⟨kind, [], children.map retell, move range⟩

/-- The same dump at other places. -/
def Retelling.relocating (move : Relocation) : Retelling where
  retell := Dump.Node.relocate move
  move := move
  kind_retell := Dump.Node.kind_relocate move
  attr_retell raw key _ := Dump.Node.attr_relocate move raw key
  children_retell := Dump.Node.children_relocate move
  range_retell := Dump.Node.range_relocate move
  retell_bare kind children range := Dump.Node.relocate_mk move kind [] children range

theorem Retelling.has_retell (r : Retelling) (raw) (h : key ∈ keys) :
    (r.retell raw).has key = raw.has key := by
  rw [Dump.Node.has_eq_isSome_attr, Dump.Node.has_eq_isSome_attr, r.attr_retell raw key h]

/-! ## What holds of a reading -/

/-- Every result of a reading has the property. -/
def Gives (P : α → Prop) (reading : Read α) : Prop :=
  ∀ a, reading = .ok a → P a

namespace Gives

theorem ok (h : P a) : Gives P (.ok a) := by
  rintro b ⟨⟩
  exact h

theorem pure (h : P a) : Gives P (Pure.pure a) :=
  ok h

theorem error (flaw : Flaw) : Gives P (.error flaw) := by
  rintro b ⟨⟩

/-- What a first reading gives may be relied on in the second. -/
theorem andThen (h : Gives Q reading) (hf : ∀ b, Q b → Gives P (f b)) :
    Gives P (reading >>= f) := by
  intro a ha
  cases hreading : reading with
  | error flaw =>
    rw [hreading] at ha
    cases ha
  | ok b =>
    rw [hreading] at ha
    exact hf b (h b hreading) a ha

theorem bind (h : ∀ b, Gives P (f b)) : Gives P (reading >>= f) :=
  andThen (fun _ _ => trivial) fun b (_ : True) => h b

end Gives

/-- The second reading gives what the first one gives, carried over, or fails in the same way. -/
def Matches (f : α → β) (first : Read α) (second : Read β) : Prop :=
  second = first.map f

/-- The second reading matches the first one, and every result of the first has the property. -/
structure Agree (P : α → Prop) (f : α → β) (first : Read α) (second : Read β) : Prop where
  carried : Matches f first second
  gives : Gives P first

namespace Agree

theorem ok (h : P a) (hf : b = f a) : Agree P f (.ok a) (.ok b) :=
  ⟨congrArg Except.ok hf, .ok h⟩

theorem pure (h : P a) (hf : b = f a) : Agree P f (Pure.pure a) (Pure.pure b) :=
  ok h hf

theorem error (flaw : Flaw) : Agree P f (.error flaw) (.error flaw) :=
  ⟨rfl, .error flaw⟩

theorem mono (h : Agree P f first second) (hP : ∀ a, P a → P' a) : Agree P' f first second :=
  ⟨h.carried, fun a ha => hP a (h.gives a ha)⟩

theorem bind (h : Agree P f first second) (hnext : ∀ a, P a → Agree Q g (next a) (next' (f a))) :
    Agree Q g (first >>= next) (second >>= next') := by
  rw [h.carried]
  cases hfirst : first with
  | error flaw => exact error flaw
  | ok a => exact hnext a (h.gives a hfirst)

/-- The first step looks at nothing that is carried over. -/
theorem same (hnext : ∀ a, Agree Q g (next a) (next' a)) :
    Agree Q g (first >>= next) (first >>= next') := by
  cases first with
  | error flaw => exact error flaw
  | ok a => exact hnext a

theorem ite [Decidable c] (h : c → Agree P f first second) (h' : ¬ c → Agree P f first' second') :
    Agree P f (if c then first else first') (if c then second else second') := by
  split
  · next hc => exact h hc
  · next hc => exact h' hc

/-- A check that comes first. -/
theorem checked [Decidable c] (h : Agree P f (first ()) (second ())) :
    Agree P f (if c then check >>= first else first ())
      (if c then check >>= second else second ()) :=
  ite (fun _ => same fun _ => h) fun _ => h

theorem mapM {h : γ → δ} {read : γ → Read α} {items : List γ}
    (hread : ∀ item ∈ items, Agree P f (read item) (read' (h item))) :
    Agree (∀ a ∈ ·, P a) (List.map f) (items.mapM read) ((items.map h).mapM read') := by
  induction items with
  | nil => exact pure (by simp) rfl
  | cons item rest ih =>
    rw [List.map_cons, List.mapM_cons, List.mapM_cons]
    obtain ⟨hitem, hrest⟩ := List.forall_mem_cons.1 hread
    exact hitem.bind fun _ ha => (ih hrest).bind fun _ hothers =>
      pure (List.forall_mem_cons.2 ⟨ha, hothers⟩) rfl

end Agree

/-! ## Where parts come from -/

/-- The node is of a kind that may stand where a value is expected. -/
abbrev IsValue (raw : Dump.Node) : Prop :=
  maybeExpression raw.kind = true

/-- What the construct has where values are expected may stand there. -/
def HasValues (construct : Construct Dump.Node) : Prop :=
  ∀ value, (Role.value, value) ∈ construct.positions → IsValue value

/-- All parts come from under the node. -/
def DrawsFrom (raw : Dump.Node) (parts : List Dump.Node) : Prop :=
  ∀ part ∈ parts, part.Below raw

/-- The parts come from under the node, or there is one, the return of a child. -/
def DrawsOrReturns (raw : Dump.Node) (parts : List Dump.Node) : Prop :=
  DrawsFrom raw parts ∨ ∃ value ∈ raw.children, parts = [value.returned]

/-- The parts come from under the node and may stand where they do. -/
def Supplied (raw : Dump.Node) (positions : List (Role × Dump.Node)) : Prop :=
  ∀ role part, (role, part) ∈ positions → part.Below raw ∧ (role = .value → IsValue part)

/-- The construct has the tag, and its parts are supplied by the node. -/
structure ReadFrom (raw : Dump.Node) (tag : Tag) (construct : Construct Dump.Node) : Prop where
  tag : construct.tag = tag
  supplied : Supplied raw construct.positions

/-- The readings agree on a layer with the tag that is supplied by the node. -/
abbrev AgreeLayer (r : Retelling) (raw : Dump.Node) (tag : Tag)
    (first second : Read (Construct Dump.Node)) : Prop :=
  Agree (ReadFrom raw tag) (Construct.carry r.move r.retell) first second

section Parts

namespace Supplied

theorem nil : Supplied raw [] := by
  simp [Supplied]

theorem append (h : Supplied raw positions) (h' : Supplied raw more) :
    Supplied raw (positions ++ more) := by
  intro role part hpart
  rcases List.mem_append.1 hpart with hpart | hpart
  · exact h role part hpart
  · exact h' role part hpart

theorem flatMap {items : List α} (h : ∀ item ∈ items, Supplied raw (f item)) :
    Supplied raw (items.flatMap f) := by
  intro role part hpart
  obtain ⟨item, hitem, hpart⟩ := List.mem_flatMap.1 hpart
  exact h item hitem role part hpart

theorem deeper {inner : Dump.Node} (hinner : inner ∈ raw.children)
    (h : Supplied inner positions) : Supplied raw positions :=
  fun role part hpart => (h role part hpart).imp_left (.deeper hinner)

theorem statements (h : DrawsFrom raw parts) : Supplied raw (asStatements parts) := by
  intro role part hpart
  obtain ⟨hrole, hpart⟩ := mem_asStatements.1 hpart
  exact ⟨h part hpart, by simp [hrole]⟩

theorem values (h : ∀ part ∈ parts, part.Below raw ∧ IsValue part) :
    Supplied raw (asValues parts) := by
  intro role part hpart
  obtain ⟨-, hpart⟩ := mem_asValues.1 hpart
  exact (h part hpart).imp_right fun hvalue _ => hvalue

theorem of_mem_values (h : Supplied raw (asValues parts)) (hpart : part ∈ parts) :
    part.Below raw ∧ IsValue part :=
  (h .value part (mem_asValues.2 ⟨rfl, hpart⟩)).imp_right fun hvalue => hvalue rfl

/-- Values of several items. -/
theorem allValues {items : List α} (h : ∀ item ∈ items, Supplied raw (asValues (f item))) :
    Supplied raw (asValues (items.flatMap f)) := by
  refine .values fun part hpart => ?_
  obtain ⟨item, hitem, hpart⟩ := List.mem_flatMap.1 hpart
  exact (h item hitem).of_mem_values hpart

end Supplied

theorem DrawsFrom.flatMap {items : List α} (h : ∀ item ∈ items, DrawsFrom raw (f item)) :
    DrawsFrom raw (items.flatMap f) := by
  intro part hpart
  obtain ⟨item, hitem, hpart⟩ := List.mem_flatMap.1 hpart
  exact h item hitem part hpart

end Parts

end Reading

end Swift

end SwiftToKotlin
