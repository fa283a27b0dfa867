import Mathlib.Data.List.Dedup
import Mathlib.Data.List.Perm.Subperm
import SwiftToKotlin.Proofs.Lowering.Invariant
import SwiftToKotlin.Proofs.Lowering.Refusals

/-!
# The names of locals

A local whose name the block has already gets a new name, which no open block declares and no other
local has been given. Nothing keeps a later local from being declared under that very name: then
two locals are written alike. This is the only way in which locals are confused, wherever lowering
gets to.
-/

namespace SwiftToKotlin

namespace Lowering

open Swift (Node Ty)

/-! ## Keys -/

section Keys

variable {α : Type} {value : α} {pairs : List (String × α)}

theorem mem_dropKey : pair ∈ dropKey key pairs ↔ pair ∈ pairs ∧ pair.1 ≠ key := by
  simp [dropKey]

theorem mem_putKey :
    pair ∈ putKey key value pairs ↔ pair = (key, value) ∨ pair ∈ pairs ∧ pair.1 ≠ key := by
  rw [putKey, List.mem_cons, mem_dropKey]

theorem lookup_dropKey_self : (dropKey key pairs).lookup key = none := by
  rw [List.lookup_eq_none_iff]
  intro pair hpair
  simpa using (mem_dropKey.1 hpair).2.symm

theorem lookup_dropKey_of_ne (h : other ≠ key) :
    (dropKey key pairs).lookup other = pairs.lookup other := by
  induction pairs with
  | nil => rfl
  | cons pair rest ih =>
    obtain ⟨name, value⟩ := pair
    by_cases hname : name = key
    · subst hname
      have hother : (other == name) = false := by simpa using h
      rw [List.lookup_cons, hother]
      simpa [dropKey] using ih
    · have hkept : dropKey key ((name, value) :: rest) = (name, value) :: dropKey key rest := by
        simp [dropKey, hname]
      rw [hkept, List.lookup_cons, List.lookup_cons, ih]

theorem lookup_putKey_self : (putKey key value pairs).lookup key = some value := by
  simp [putKey]

theorem lookup_putKey_of_ne (h : other ≠ key) :
    (putKey key value pairs).lookup other = pairs.lookup other := by
  have hother : (other == key) = false := by simpa using h
  rw [putKey, List.lookup_cons, hother]
  exact lookup_dropKey_of_ne h

end Keys

/-! ## Fresh names -/

namespace Locals

variable {locals : Locals} {name : String}

/-- If the search ends with a name that is taken, every candidate is taken. -/
theorem mem_taken_of_freshFrom_mem (h : freshFrom taken name tries suffix ∈ taken)
    (hn : n ≤ tries) :
    s!"{name}{suffix + n}" ∈ taken := by
  induction tries generalizing suffix n with
  | zero =>
    obtain rfl : n = 0 := by omega
    exact h
  | succ tries ih =>
    rw [freshFrom] at h
    split at h
    · next hfirst =>
      cases n with
      | zero => exact hfirst
      | succ n =>
        have hnext := ih h (n := n) (by omega)
        rwa [Nat.add_right_comm] at hnext
    · next hfirst => exact absurd h hfirst

theorem candidate_injective (name : String) :
    Function.Injective fun n : Nat => s!"{name}{2 + n}" := by
  intro m n h
  have hsuffix : (2 + m).repr = (2 + n).repr := (String.append_right_inj name).1 h
  have hdigits : Nat.toDigits 10 (2 + m) = Nat.toDigits 10 (2 + n) :=
    String.ofList_injective hsuffix
  have hvalue := congrArg (Nat.ofDigitChars 10 · 0) hdigits
  simp only [Nat.ofDigitChars_toDigits (show 1 < 10 by decide) (show 10 ≤ 10 by decide)] at hvalue
  omega

/-- Of candidates that are all taken there are no more than names taken. -/
theorem le_length_of_candidates (taken : List String)
    (h : ∀ n < count, s!"{name}{2 + n}" ∈ taken) :
    count ≤ taken.dedup.length := by
  let candidates := (List.range count).map fun n => s!"{name}{2 + n}"
  have hall : candidates ⊆ taken.dedup := by
    intro candidate hcandidate
    obtain ⟨n, hn, rfl⟩ := List.mem_map.1 hcandidate
    exact List.mem_dedup.2 (h n (List.mem_range.1 hn))
  have hnodup : candidates.Nodup := List.Nodup.map (candidate_injective name) List.nodup_range
  simpa [candidates] using (List.subperm_of_subset hnodup hall).length_le

/-- The candidates are one more than the names taken, so one of them is free. -/
theorem fresh_not_mem_taken (locals : Locals) (name : String) :
    locals.fresh name ∉ locals.flatMap Block.taken := by
  intro hmem
  have hle : (locals.flatMap Block.taken).length + 1 ≤ (locals.flatMap Block.taken).dedup.length :=
    le_length_of_candidates _ fun _ hn =>
      mem_taken_of_freshFrom_mem hmem (Nat.lt_succ_iff.1 hn)
  have hdedup := (List.dedup_sublist (locals.flatMap Block.taken)).length_le
  omega

/-! ## What locals are written under -/

/-- Whether an open block has a local of the name. -/
def declares (locals : Locals) (name : String) : Bool :=
  locals.any (·.declares name)

/-- The new names that are given in the open blocks. -/
def renames (locals : Locals) : List (String × String) :=
  locals.flatMap Block.renames

theorem declares_cons (block : Block) (outer : Locals) (name : String) :
    declares (block :: outer) name = (block.declares name || declares outer name) :=
  rfl

theorem mem_renames_cons :
    pair ∈ renames (block :: outer) ↔ pair ∈ block.renames ∨ pair ∈ renames outer := by
  simp [renames]

/-- A new name was given in one of the open blocks. -/
theorem mem_renames_of_renameOf? (h : renameOf? name locals = some renamed) :
    (name, renamed) ∈ locals.renames := by
  induction locals with
  | nil => cases h
  | cons block outer ih =>
    rw [mem_renames_cons]
    rw [renameOf?] at h
    split at h
    · next hlookup =>
      cases h
      obtain ⟨before, after, heq, -⟩ := List.lookup_eq_some_iff.1 hlookup
      exact .inl (by simp [heq])
    · split at h
      · cases h
      · exact .inr (ih h)

theorem mem_taken_of_mem_renames (h : pair ∈ locals.renames) :
    pair.2 ∈ locals.flatMap Block.taken := by
  obtain ⟨block, hblock, hpair⟩ := List.mem_flatMap.1 h
  refine List.mem_flatMap.2 ⟨block, hblock, List.mem_append_right _ ?_⟩
  exact List.mem_map_of_mem hpair

theorem mem_taken_of_declares (h : locals.declares name = true) :
    name ∈ locals.flatMap Block.taken := by
  obtain ⟨block, hblock, hname⟩ := List.any_eq_true.1 h
  refine List.mem_flatMap.2 ⟨block, hblock, List.mem_append_left _ ?_⟩
  simpa [Block.declares] using hname

/-- What a local is written under is taken. -/
theorem written_mem_taken (h : locals.declares name = true) :
    locals.written name ∈ locals.flatMap Block.taken := by
  unfold written
  cases hrename : renameOf? name locals with
  | none => exact mem_taken_of_declares h
  | some renamed => exact mem_taken_of_mem_renames (mem_renames_of_renameOf? hrename)

/-! ## One declaration -/

/-- Locals that are the same but for those of one name, which the second ones declare. -/
structure ChangedAt (name : String) (before after : Locals) : Prop where
  declares_self : after.declares name = true
  declares_other : ∀ {other}, other ≠ name → after.declares other = before.declares other
  written_other : ∀ {other}, other ≠ name → after.written other = before.written other

theorem changedAt_cons (outer : Locals) (hself : block'.declares name = true)
    (hdeclares : ∀ {other}, other ≠ name → block'.declares other = block.declares other)
    (hlookup : ∀ {other}, other ≠ name → block'.renames.lookup other = block.renames.lookup other) :
    ChangedAt name (block :: outer) (block' :: outer) where
  declares_self := by rw [declares_cons, hself, Bool.true_or]
  declares_other hne := by rw [declares_cons, declares_cons, hdeclares hne]
  written_other hne := by unfold written renameOf?; rw [hlookup hne, hdeclares hne]

theorem declares_putKey {types : List (String × Option Ty)} (renames renames')
    (hne : other ≠ name) :
    Block.declares ⟨putKey name ty types, renames⟩ other =
      Block.declares ⟨types, renames'⟩ other := by
  have hkeys : other ∈ (putKey name ty types).map Prod.fst ↔ other ∈ types.map Prod.fst := by
    simp only [List.mem_map, mem_putKey]
    constructor
    · rintro ⟨pair, rfl | ⟨hpair, -⟩, rfl⟩
      · exact absurd rfl hne
      · exact ⟨pair, hpair, rfl⟩
    · rintro ⟨pair, hpair, rfl⟩
      exact ⟨pair, .inr ⟨hpair, hne⟩, rfl⟩
  rw [Bool.eq_iff_iff]
  simpa [Block.declares] using hkeys

theorem changedAt_declare (name : String) (ty) (block : Block) (outer : Locals) :
    ChangedAt name (block :: outer) (declare name ty (block :: outer)) := by
  refine changedAt_cons outer ?_ ?_ fun hne => lookup_dropKey_of_ne hne
  · simp [Block.declares, Block.declare, putKey]
  · intro other hne
    exact declares_putKey _ _ hne

theorem changedAt_declareAs (name renamed : String) (ty) (block : Block) (outer : Locals) :
    ChangedAt name (block :: outer) (block.declareAs name renamed ty :: outer) := by
  refine changedAt_cons outer ?_ ?_ fun hne => lookup_putKey_of_ne hne
  · simp [Block.declares, Block.declareAs, putKey]
  · intro other hne
    exact declares_putKey _ _ hne

theorem written_declare_self (name : String) (ty) (block : Block) (outer : Locals) :
    (declare name ty (block :: outer)).written name = name := by
  simp [written, declare, renameOf?, Block.declare, lookup_dropKey_self, Block.declares, putKey]

theorem written_declareAs_self (name renamed : String) (ty) (block : Block) (outer : Locals) :
    written (block.declareAs name renamed ty :: outer) name = renamed := by
  simp [written, renameOf?, Block.declareAs, lookup_putKey_self]

theorem narrow_cons (name : String) (ty) (block : Block) (outer : Locals) :
    narrow name ty (block :: outer) =
      (match renameOf? name (block :: outer) with
        | some renamed => block.declareAs name renamed ty
        | none => block.declare name ty) :: outer := by
  unfold narrow
  cases renameOf? name (block :: outer) <;> rfl

theorem declareFresh_cons (name : String) (ty) (block : Block) (outer : Locals) :
    declareFresh name ty (block :: outer) =
      if block.declares name then
        (block.declareAs name (fresh (block :: outer) name) ty :: outer,
          fresh (block :: outer) name)
      else (block.declare name ty :: outer, name) :=
  rfl

/-- Giving a local another type changes no name. -/
theorem changedAt_narrow (name : String) (ty) (block : Block) (outer : Locals) :
    ChangedAt name (block :: outer) (narrow name ty (block :: outer)) ∧
      (narrow name ty (block :: outer)).written name = written (block :: outer) name := by
  rw [narrow_cons]
  cases hrename : renameOf? name (block :: outer) with
  | none =>
    refine ⟨changedAt_declare name ty block outer, ?_⟩
    refine (written_declare_self name ty block outer).trans ?_
    rw [written, hrename]
    rfl
  | some renamed =>
    refine ⟨changedAt_declareAs name renamed ty block outer, ?_⟩
    rw [written_declareAs_self, written, hrename]
    rfl

/-! ## Locals apart -/

/-- Different locals are written under different names. -/
def Apart (locals : Locals) : Prop :=
  ∀ a b, locals.declares a = true → locals.declares b = true → a ≠ b →
    locals.written a ≠ locals.written b

/-- Only the local that was declared can be taken for another one. -/
theorem ChangedAt.apart_iff (h : ChangedAt name before after) (hbefore : before.Apart) :
    after.Apart ↔ ∀ other, before.declares other = true → other ≠ name →
      before.written other ≠ after.written name := by
  constructor
  · intro hafter other hother hne
    rw [← h.written_other hne]
    exact hafter other name (by rw [h.declares_other hne, hother]) h.declares_self hne
  · intro hname a b ha hb hab
    by_cases hane : a = name
    · subst hane
      rw [h.declares_other hab.symm] at hb
      rw [h.written_other hab.symm]
      exact (hname b hb hab.symm).symm
    · rw [h.declares_other hane] at ha
      rw [h.written_other hane]
      by_cases hbne : b = name
      · subst hbne
        exact hname a ha hane
      · rw [h.declares_other hbne] at hb
        rw [h.written_other hbne]
        exact hbefore a b ha hb hab

/-- A local that gets a new name is not taken for another one. -/
theorem Apart.declareFresh (ty) (hlocals : locals.Apart)
    (h : (locals.declareFresh name ty).2 ≠ name) : (locals.declareFresh name ty).1.Apart := by
  cases locals with
  | nil => exact hlocals
  | cons block outer =>
    rw [declareFresh_cons] at h ⊢
    split
    · rw [(changedAt_declareAs name _ ty block outer).apart_iff hlocals, written_declareAs_self]
      intro other hother _ hsame
      exact fresh_not_mem_taken (block :: outer) name (hsame ▸ written_mem_taken hother)
    · next hnew => simp [hnew] at h

/-- Giving a local another type does not make it be taken for another one. -/
theorem Apart.narrow (ty) (hlocals : locals.Apart) (h : locals.declares name = true) :
    (locals.narrow name ty).Apart := by
  cases locals with
  | nil => exact hlocals
  | cons block outer =>
    obtain ⟨hchanged, hwritten⟩ := changedAt_narrow name ty block outer
    rw [hchanged.apart_iff hlocals, hwritten]
    intro other hother hne
    exact hlocals other name hother h hne

/-- A plain declaration confuses locals exactly if another one is written under the name. -/
theorem Apart.declare_iff (name : String) (ty) (hlocals : locals.Apart) :
    (locals.declare name ty).Apart ↔
      ∀ other, locals.declares other = true → other ≠ name → locals.written other ≠ name := by
  cases locals with
  | nil => simp [Apart, declares, Locals.declare]
  | cons block outer =>
    rw [(changedAt_declare name ty block outer).apart_iff hlocals, written_declare_self]

/-! ## Where new names come from -/

/-- A new name is copied from a block outside, or is no name that was taken there; and no block
gives it twice. -/
def Sound : Locals → Prop
  | [] => True
  | block :: outer =>
    (∀ p ∈ block.renames, p ∈ renames outer ∨ p.2 ∉ outer.flatMap Block.taken) ∧
      (∀ p ∈ block.renames, ∀ q ∈ block.renames, p.2 = q.2 → p.1 = q.1) ∧ Sound outer

/-- The same new name is given to locals of one name only. -/
theorem Sound.eq_of_mem_renames (h : locals.Sound) (hp : p ∈ locals.renames)
    (hq : q ∈ locals.renames) (hsame : p.2 = q.2) : p.1 = q.1 := by
  induction locals generalizing p q with
  | nil => cases hp
  | cons block outer ih =>
    obtain ⟨horigin, hblock, houter⟩ := h
    -- a name from the block that is found outside as well is a copy
    have hcopy {p q : String × String} (hp : p ∈ block.renames) (hq : q ∈ renames outer)
        (hsame : p.2 = q.2) : p.1 = q.1 := by
      rcases horigin p hp with hp | hp
      · exact ih houter hp hq hsame
      · exact absurd (hsame ▸ mem_taken_of_mem_renames hq) hp
    rw [mem_renames_cons] at hp hq
    rcases hp with hp | hp <;> rcases hq with hq | hq
    · exact hblock p hp q hq hsame
    · exact hcopy hp hq hsame
    · exact (hcopy hq hp hsame.symm).symm
    · exact ih houter hp hq hsame

/-- No block outside the one in which a new name was given first had that name. -/
theorem Sound.exists_origin (h : locals.Sound) (hp : p ∈ locals.renames) :
    ∃ inner block outer, locals = inner ++ block :: outer ∧ p ∈ block.renames ∧
      p.2 ∉ outer.flatMap Block.taken := by
  induction locals with
  | nil => cases hp
  | cons block outer ih =>
    have hfurther (hp : p ∈ renames outer) :
        ∃ inner block' outer', block :: outer = inner ++ block' :: outer' ∧ p ∈ block'.renames ∧
          p.2 ∉ outer'.flatMap Block.taken := by
      obtain ⟨inner, block', outer', rfl, hblock⟩ := ih h.2.2 hp
      exact ⟨block :: inner, block', outer', rfl, hblock⟩
    rcases mem_renames_cons.1 hp with hblock | houter
    · rcases h.1 p hblock with hcopied | hnew
      · exact hfurther hcopied
      · exact ⟨[], block, outer, rfl, hblock, hnew⟩
    · exact hfurther houter

theorem Sound.of_renames_subset (h : Sound (block :: outer))
    (hsubset : block'.renames ⊆ block.renames) :
    Sound (block' :: outer) := by
  obtain ⟨horigin, hblock, houter⟩ := h
  exact ⟨fun p hp => horigin p (hsubset hp),
    fun p hp q hq => hblock p (hsubset hp) q (hsubset hq), houter⟩

theorem Sound.declare (h : locals.Sound) (name : String) (ty) : (locals.declare name ty).Sound := by
  cases locals with
  | nil => exact h
  | cons block outer => exact h.of_renames_subset fun pair hpair => (mem_dropKey.1 hpair).1

theorem Sound.declareAs (h : Sound (block :: outer)) (ty)
    (horigin : (name, renamed) ∈ renames outer ∨ renamed ∉ outer.flatMap Block.taken)
    (hblock : ∀ p ∈ block.renames, p.2 = renamed → p.1 = name) :
    Sound (block.declareAs name renamed ty :: outer) := by
  obtain ⟨horigins, hdistinct, houter⟩ := h
  refine ⟨fun p hp => ?_, fun p hp q hq hsame => ?_, houter⟩
  · rcases mem_putKey.1 hp with rfl | ⟨hp, -⟩
    · exact horigin
    · exact horigins p hp
  · rcases mem_putKey.1 hp with rfl | ⟨hp, -⟩ <;> rcases mem_putKey.1 hq with rfl | ⟨hq, -⟩
    · rfl
    · exact (hblock q hq hsame.symm).symm
    · exact hblock p hp hsame
    · exact hdistinct p hp q hq hsame

theorem Sound.narrow (h : locals.Sound) (name : String) (ty) : (locals.narrow name ty).Sound := by
  cases locals with
  | nil => exact h
  | cons block outer =>
    rw [narrow_cons]
    cases hrename : renameOf? name (block :: outer) with
    | none => exact h.declare name ty
    | some renamed =>
      have hmem := mem_renames_of_renameOf? hrename
      have hblock : ∀ p ∈ block.renames, p.2 = renamed → p.1 = name := fun p hp hsame =>
        h.eq_of_mem_renames (mem_renames_cons.2 (.inl hp)) hmem hsame
      refine h.declareAs ty ?_ hblock
      rcases mem_renames_cons.1 hmem with hmem | hmem
      · exact h.1 _ hmem
      · exact .inl hmem

theorem Sound.declareFresh (h : locals.Sound) (name : String) (ty) :
    (locals.declareFresh name ty).1.Sound := by
  cases locals with
  | nil => exact h
  | cons block outer =>
    rw [declareFresh_cons]
    split
    · have hfresh := fresh_not_mem_taken (block :: outer) name
      refine h.declareAs ty (.inr fun hmem => hfresh ?_) fun p hp hsame => absurd ?_ hfresh
      · exact List.mem_append_right _ hmem
      · rw [← hsame]
        exact mem_taken_of_mem_renames (mem_renames_cons.2 (.inl hp))
    · exact h.declare name ty

theorem invariant_sound : Invariant Sound where
  start := trivial
  declare name ty h := h.declare name ty
  narrow name ty h := h.narrow name ty
  declareFresh name ty h := h.declareFresh name ty
  opened h := ⟨by simp [Block.empty], by simp [Block.empty], h⟩
  closed {locals} h := by
    cases locals with
    | nil => exact h
    | cons block outer => exact h.2.2

/-! ## Locals that are confused -/

/-- A local `a` was given the name `b` in a block, when no block around it had such a name. What is
called `b` goes by its own name. -/
structure Overtakes (locals : Locals) (a b : String) : Prop where
  renamed : renameOf? a locals = some b
  own : renameOf? b locals = none
  origin : ∃ inner block outer, locals = inner ++ block :: outer ∧ (a, b) ∈ block.renames ∧
    b ∉ outer.flatMap Block.taken

theorem Overtakes.written_eq (h : locals.Overtakes a b) : locals.written a = locals.written b := by
  rw [written, h.renamed, written, h.own]
  rfl

theorem Sound.overtakes (h : locals.Sound) (hrenamed : renameOf? a locals = some b)
    (hown : renameOf? b locals = none) : locals.Overtakes a b :=
  ⟨hrenamed, hown, h.exists_origin (mem_renames_of_renameOf? hrenamed)⟩

/-- Of two names that are written alike, one is written as it is, and the other one was given it. -/
theorem Sound.written_eq_iff (h : locals.Sound) (hne : a ≠ b) :
    locals.written a = locals.written b ↔ locals.Overtakes a b ∨ locals.Overtakes b a := by
  constructor
  · intro hsame
    unfold written at hsame
    cases ha : renameOf? a locals with
    | none =>
      cases hb : renameOf? b locals with
      | none =>
        rw [ha, hb] at hsame
        exact absurd hsame hne
      | some renamed =>
        rw [ha, hb] at hsame
        obtain rfl : a = renamed := hsame
        exact .inr (h.overtakes hb ha)
    | some renamed =>
      cases hb : renameOf? b locals with
      | none =>
        rw [ha, hb] at hsame
        obtain rfl : renamed = b := hsame
        exact .inl (h.overtakes ha hb)
      | some renamed' =>
        rw [ha, hb] at hsame
        exact absurd (h.eq_of_mem_renames (mem_renames_of_renameOf? ha)
          (mem_renames_of_renameOf? hb) hsame) hne
  · rintro (hover | hover)
    · exact hover.written_eq
    · exact hover.written_eq.symm

end Locals

end Lowering

namespace Conversion

open Lowering (Locals)

/-- Wherever a conversion gets to, two names are written alike exactly if one of them is a local
that was given the other name when no block around had it. Giving a new name or another type never
confuses locals that are apart; a plain declaration does if another local is written under its
name. -/
theorem ofDump_confuses_only_overtaken_locals (settings : Settings) (dump : Dump.Node) :
    (∀ height place visit, Reaches settings dump height place visit →
      ∀ a b, a ≠ b →
        (visit.state.locals.written a = visit.state.locals.written b ↔
          visit.state.locals.Overtakes a b ∨ visit.state.locals.Overtakes b a)) ∧
    ∀ (locals : Locals) name ty, locals.Apart →
      ((locals.declareFresh name ty).2 ≠ name → (locals.declareFresh name ty).1.Apart) ∧
      (locals.declares name = true → (locals.narrow name ty).Apart) ∧
      ((locals.declare name ty).Apart ↔
        ∀ other, locals.declares other = true → other ≠ name → locals.written other ≠ name) := by
  constructor
  · intro height place visit hreaches a b hne
    have hsound := hreaches.invariant Locals.invariant_sound
    exact hsound.written_eq_iff hne
  · intro locals name ty hapart
    exact ⟨hapart.declareFresh ty, hapart.narrow ty, hapart.declare_iff name ty⟩

/-- A function that binds `x` a second time with a guard and declares `x2` after that. -/
def overtakenLocal : Dump.Node :=
  let reference (name : String) : Dump.Node := ⟨"declref_expr", [("name", name)], [], none⟩
  let number (value : String) : Dump.Node := ⟨"integer_literal_expr", [("value", value)], [], none⟩
  let constant (name : String) (value : Dump.Node) : Dump.Node :=
    ⟨"var_decl", [("name", name), ("let", "")], [value], none⟩
  let call (name : String) (arguments : List Dump.Node) : Dump.Node :=
    ⟨"call_expr", [], reference name :: arguments, none⟩
  ⟨"source_file", [], [⟨"func_decl", [("name", "f")], [⟨"brace_stmt", [],
    [constant "x" (number "1"),
      ⟨"guard_stmt", [], [⟨"optional_binding", [("name", "x")], [call "maybe" []], none⟩,
        ⟨"brace_stmt", [], [⟨"return_stmt", [], [], none⟩], none⟩], none⟩,
      constant "x2" (number "5"),
      call "use" [reference "x", reference "x2"]], none⟩], none⟩], none⟩

/-- The guard binding and the later constant become two constants `x2`, and both references are
written alike. -/
theorem overtaken_local_confused :
    let reference (name : String) : Kotlin.Node := .reference name none
    let constant (name : String) (value : Kotlin.Node) : Kotlin.Node :=
      ⟨.property { name, binding := .val, init := some value }, none⟩
    (ofDump {} overtakenLocal).kotlin =
      ⟨.file [⟨.function
        { name := "f", receiver := none, params := [], returnType := none
          body := some
            [constant "x" (.literal (.int "1") none),
              constant "x2" (.call (reference "maybe") [] none),
              ⟨.ifStmt (.binary .eq (reference "x2") (.literal .null none) none)
                [⟨.returnStmt none, none⟩] none, none⟩,
              constant "x2" (.literal (.int "5") none),
              .call (reference "use") [reference "x2", reference "x2"] none]
          modifiers := [] }, none⟩], none⟩ := by
  with_unfolding_all rfl

end Conversion

end SwiftToKotlin
