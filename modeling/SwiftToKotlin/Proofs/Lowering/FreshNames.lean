import SwiftToKotlin.Proofs.Lowering.LocalNames

/-!
# The search for a new name

A local whose name its block has already is written under the first of `name2`, `name3`, … that no
open block has taken. The search looks at one candidate more than there are names taken, at most.
From then on the local goes by the name that was found, until the name is declared again or the
block is left.
-/

namespace SwiftToKotlin.Lowering.Locals

open Swift (Ty)

/-- The search without a bound: `steps` candidates from the suffix on are looked at, and only the
last of them, `found`, is free. -/
inductive Ends (taken : List String) (name found : String) : Nat → Nat → Prop
  | free (hfree : found ∉ taken) (hfound : found = s!"{name}{suffix}") :
    Ends taken name found suffix 1
  | next (htaken : s!"{name}{suffix}" ∈ taken) (h : Ends taken name found (suffix + 1) steps) :
    Ends taken name found suffix (steps + 1)

theorem exists_ends (h : freshFrom taken name tries suffix ∉ taken) :
    ∃ steps, Ends taken name (freshFrom taken name tries suffix) suffix steps := by
  induction tries generalizing suffix with
  | zero => exact ⟨1, .free h rfl⟩
  | succ tries ih =>
    rw [freshFrom] at h ⊢
    split
    · next htaken =>
      obtain ⟨steps, hends⟩ := ih (by rwa [if_pos htaken] at h)
      exact ⟨steps + 1, .next htaken hends⟩
    · next hfree => exact ⟨1, .free hfree rfl⟩

/-- All candidates before the last one are taken. -/
theorem Ends.mem_taken (h : Ends taken name found suffix steps) (hn : n + 1 < steps) :
    s!"{name}{suffix + n}" ∈ taken := by
  induction h generalizing n with
  | free => omega
  | next htaken _ ih =>
    cases n with
    | zero => exact htaken
    | succ n =>
      have hrest := ih (n := n) (by omega)
      rwa [Nat.add_right_comm] at hrest

/-- The search takes one step for each name taken, at most, and a last one. -/
theorem Ends.steps_le (h : Ends taken name found 2 steps) : steps ≤ taken.dedup.length + 1 := by
  have hle : steps - 1 ≤ taken.dedup.length :=
    le_length_of_candidates taken fun n hn => h.mem_taken (by omega)
  omega

/-! ## What happens to the open blocks -/

/-- A change of the open blocks. -/
inductive Change
  | declare (name : String) (ty : Option Ty)
  | declareFresh (name : String) (ty : Option Ty)
  | narrow (name : String) (ty : Option Ty)
  | openBlock
  | closeBlock

def Change.run (locals : Locals) : Change → Locals
  | declare name ty => locals.declare name ty
  | declareFresh name ty => (locals.declareFresh name ty).1
  | narrow name ty => locals.narrow name ty
  | openBlock => .empty :: locals
  | closeBlock => locals.tail

/-- With `depth` blocks open inside the block of a local, the changes neither declare its name again
nor leave its block. -/
def Spare (name : String) : Nat → List Change → Prop
  | _, [] => True
  | depth, .declare other _ :: rest => other ≠ name ∧ Spare name depth rest
  | depth, .declareFresh other _ :: rest => other ≠ name ∧ Spare name depth rest
  | depth, .narrow _ _ :: rest => Spare name depth rest
  | depth, .openBlock :: rest => Spare name (depth + 1) rest
  | 0, .closeBlock :: _ => False
  | depth + 1, .closeBlock :: rest => Spare name depth rest

variable {outer locals : Locals} {depth : Nat}

/-- The local is written so, now and when up to `depth` blocks have been closed. -/
def WrittenAs (name found : String) : Nat → Locals → Prop
  | _, [] => False
  | 0, block :: outer => Locals.written (block :: outer) name = found
  | depth + 1, block :: outer =>
    Locals.written (block :: outer) name = found ∧ WrittenAs name found depth outer

theorem WrittenAs.written_eq (h : WrittenAs name found depth locals) :
    locals.written name = found := by
  cases locals with
  | nil => cases depth <;> exact h.elim
  | cons block outer =>
    cases depth with
    | zero => exact h
    | succ depth => exact h.1

/-- Only what the innermost block does to the name matters. -/
theorem WrittenAs.replace (h : WrittenAs name found depth (block :: outer))
    (hsame : Locals.written (block' :: outer) name = Locals.written (block :: outer) name) :
    WrittenAs name found depth (block' :: outer) := by
  have hwritten := hsame.trans h.written_eq
  cases depth with
  | zero => exact hwritten
  | succ depth => exact ⟨hwritten, h.2⟩

theorem written_narrow (name other : String) (ty : Option Ty) (block : Block) (outer : Locals) :
    (narrow other ty (block :: outer)).written name = Locals.written (block :: outer) name := by
  obtain ⟨hchanged, hself⟩ := changedAt_narrow other ty block outer
  by_cases h : name = other
  · rw [h, hself]
  · exact hchanged.written_other h

theorem WrittenAs.declareFresh (h : WrittenAs name found depth (block :: outer))
    (hne : name ≠ other) (ty) :
    WrittenAs name found depth (Locals.declareFresh other ty (block :: outer)).1 := by
  rw [declareFresh_cons]
  split
  · exact h.replace ((changedAt_declareAs _ _ _ _ _).written_other hne)
  · exact h.replace ((changedAt_declare _ ty _ _).written_other hne)

/-- Changes that spare the name leave the local written as it is. -/
theorem WrittenAs.written_foldl (h : WrittenAs name found depth locals)
    (hspare : Spare name depth changes) :
    (changes.foldl Change.run locals).written name = found := by
  induction changes generalizing depth locals with
  | nil => exact h.written_eq
  | cons change rest ih =>
    obtain ⟨block, outer, rfl⟩ : ∃ block outer, locals = block :: outer := by
      cases locals with
      | nil => cases depth <;> exact h.elim
      | cons block outer => exact ⟨block, outer, rfl⟩
    rw [List.foldl_cons]
    cases change with
    | declare other ty =>
      have hsame := (changedAt_declare other ty block outer).written_other hspare.1.symm
      exact ih (h.replace hsame) hspare.2
    | declareFresh other ty => exact ih (h.declareFresh hspare.1.symm ty) hspare.2
    | narrow other ty =>
      have hsame := written_narrow name other ty block outer
      rw [narrow_cons] at hsame
      have hnext : WrittenAs name found depth (Change.run (block :: outer) (.narrow other ty)) := by
        rw [Change.run, narrow_cons]
        exact h.replace hsame
      exact ih hnext hspare
    | openBlock =>
      have hnext : WrittenAs name found (depth + 1) (.empty :: block :: outer) := ⟨h.written_eq, h⟩
      exact ih hnext hspare
    | closeBlock =>
      cases depth with
      | zero => exact hspare.elim
      | succ depth => exact ih h.2 hspare

/-- A second local of a name gets a name that the search ends with after at most one step more than
names are taken. No open block has it, as the name of a local or as a new one, and references are
written under it as long as the name is spared. -/
theorem declareFresh_finds_free_name (block : Block) (outer : Locals) (name : String)
    (ty : Option Ty) (h : block.declares name = true) :
    let taken := (block :: outer).flatMap Block.taken
    let (declared, found) := Locals.declareFresh name ty (block :: outer)
    (∃ steps ≤ taken.dedup.length + 1, Ends taken name found 2 steps) ∧
    (∀ opened ∈ block :: outer,
      found ∉ opened.types.map Prod.fst ∧ found ∉ opened.renames.map Prod.snd) ∧
    ∀ changes, Spare name 0 changes →
      (changes.foldl Change.run declared).written name = found ∧
      ∀ (context : Context) (state : State) (range : Option SourceRange),
        state.locals = changes.foldl Change.run declared → anonymousIndex? name = none →
          (((Expression.reference name range).run context).run state).1 =
            .reference (identifier found) range := by
  have hfree := fresh_not_mem_taken (block :: outer) name
  rw [declareFresh_cons, if_pos h]
  refine ⟨?_, fun opened hopened => ?_, fun changes hspare => ?_⟩
  · obtain ⟨steps, hends⟩ := exists_ends hfree
    exact ⟨steps, hends.steps_le, hends⟩
  · have hown : fresh (block :: outer) name ∉ opened.taken := fun hmem =>
      hfree (List.mem_flatMap.2 ⟨opened, hopened, hmem⟩)
    rwa [Block.taken, List.mem_append, not_or] at hown
  · have hnew : WrittenAs name (fresh (block :: outer) name) 0
        (block.declareAs name (fresh (block :: outer) name) ty :: outer) :=
      written_declareAs_self name _ ty block outer
    have hwritten := hnew.written_foldl hspare
    refine ⟨hwritten, fun context state range hlocals hname => ?_⟩
    rw [← hwritten, ← hlocals]
    unfold Expression.reference
    rw [hname]
    rfl

/-- In a block with `x` and `x2`, a second `x` is written `x3`, also after a block inside. -/
theorem second_x_written_x3 :
    let (declared, found) := Locals.declareFresh "x" none
      [(Block.empty.declare "x" none).declare "x2" none]
    found = "x3" ∧ ([Change.openBlock, .declare "x2" none, .narrow "x" none, .closeBlock].foldl
      Change.run declared).written "x" = "x3" := by
  have hall := declareFresh_finds_free_name ((Block.empty.declare "x" none).declare "x2" none) []
    "x" none (by decide)
  exact ⟨by decide, (hall.2.2 _ (by simp [Spare])).1.trans (by decide)⟩

end SwiftToKotlin.Lowering.Locals
