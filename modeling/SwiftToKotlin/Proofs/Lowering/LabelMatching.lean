import Mathlib.Data.List.Nodup
import SwiftToKotlin.Lowering.DeclaredTypes

/-!
# Labels and the parameters that they choose

A call chooses some of the parameters of a constructor, in order, and leaves the others to their
defaults. The search for such a choice goes from left to right and never returns to a parameter that
it has passed. Where no two parameters have the same label this loses nothing: the label at the
front decides about the first parameter.
-/

namespace SwiftToKotlin.Lowering.DeclaredTypes

/-! ## Choices of parameters -/

section Choices

/-- The parameters at the marked positions. -/
def picked (slots : List Slot) (taken : List Bool) : List Slot :=
  ((slots.zip taken).filter Prod.snd).map Prod.fst

@[simp] theorem picked_cons_true (slot : Slot) (slots taken) :
    picked (slot :: slots) (true :: taken) = slot :: picked slots taken := by
  simp [picked]

@[simp] theorem picked_cons_false (slot : Slot) (slots taken) :
    picked (slot :: slots) (false :: taken) = picked slots taken := by
  simp [picked]

theorem picked_sublist (slots) (taken : List Bool) : (picked slots taken).Sublist slots := by
  induction slots generalizing taken with
  | nil => simp [picked]
  | cons slot slots ih =>
    cases taken with
    | nil => simp [picked]
    | cons take taken =>
      cases take with
      | true => simpa using ih taken
      | false => simpa using (ih taken).cons slot

/-- A choice of parameters for arguments with the labels: one position marked for each label, in
order, and a default at every position that is not marked. -/
@[mk_iff] structure Chooses (slots : List Slot) (labels : List (Option String))
    (taken : List Bool) : Prop where
  length_eq : taken.length = slots.length
  labels_eq : (picked slots taken).map Slot.label = labels
  hasDefault : ∀ place ∈ slots.zip taken, place.2 = false → place.1.hasDefault = true

instance (slots : List Slot) (labels : List (Option String)) (taken : List Bool) :
    Decidable (Chooses slots labels taken) :=
  decidable_of_iff _ (chooses_iff slots labels taken).symm

theorem chooses_nil_iff : Chooses [] labels taken ↔ labels = [] ∧ taken = [] := by
  constructor
  · intro h
    have htaken : taken = [] := List.length_eq_zero_iff.1 h.length_eq
    subst htaken
    exact ⟨h.labels_eq.symm, rfl⟩
  · rintro ⟨rfl, rfl⟩
    decide

theorem chooses_cons_true_iff {slot : Slot} :
    Chooses (slot :: slots) labels (true :: taken) ↔
      ∃ rest, labels = slot.label :: rest ∧ Chooses slots rest taken := by
  simp only [chooses_iff, List.length_cons, Nat.succ.injEq, picked_cons_true,
    List.zip_cons_cons, List.forall_mem_cons]
  constructor
  · rintro ⟨hlength, hlabels, -, hdefault⟩
    exact ⟨_, hlabels.symm, hlength, rfl, hdefault⟩
  · rintro ⟨rest, rfl, hlength, rfl, hdefault⟩
    exact ⟨hlength, rfl, by simp, hdefault⟩

theorem chooses_cons_false_iff {slot : Slot} :
    Chooses (slot :: slots) labels (false :: taken) ↔
      slot.hasDefault = true ∧ Chooses slots labels taken := by
  simp only [chooses_iff, List.length_cons, Nat.succ.injEq,
    List.zip_cons_cons, List.forall_mem_cons]
  constructor
  · rintro ⟨hlength, hlabels, hslot, hdefault⟩
    exact ⟨hslot trivial, hlength, hlabels, hdefault⟩
  · rintro ⟨hslot, hlength, hlabels, hdefault⟩
    exact ⟨hlength, hlabels, fun _ => hslot, hdefault⟩

/-- The chosen labels are labels of parameters. -/
theorem Chooses.mem_of_mem (h : Chooses slots labels taken) (hmem : label ∈ labels) :
    label ∈ slots.map Slot.label := by
  rw [← h.labels_eq] at hmem
  exact (picked_sublist slots taken).map Slot.label |>.subset hmem

end Choices

/-! ## The search -/

/-- What the search finds is a choice. -/
theorem exists_chooses_of_matchLabels (h : matchLabels slots labels = some names) :
    ∃ taken, Chooses slots labels taken ∧ (picked slots taken).map Slot.name = names := by
  fun_induction matchLabels slots labels generalizing names with
  | case1 =>
    obtain rfl := Option.some.inj h
    exact ⟨[], chooses_nil_iff.2 ⟨rfl, rfl⟩, rfl⟩
  | case2 => cases h
  | case3 slot slots hdefault ih =>
    obtain ⟨taken, htaken, hnames⟩ := ih h
    exact ⟨false :: taken, chooses_cons_false_iff.2 ⟨hdefault, htaken⟩, by simpa using hnames⟩
  | case4 => cases h
  | case5 slot slots labels ih =>
    obtain ⟨matched, hmatched, rfl⟩ := Option.map_eq_some_iff.1 h
    obtain ⟨taken, htaken, hnames⟩ := ih hmatched
    exact ⟨true :: taken, chooses_cons_true_iff.2 ⟨labels, rfl, htaken⟩, by simp [hnames]⟩
  | case6 slot slots label labels _ hdefault ih =>
    obtain ⟨taken, htaken, hnames⟩ := ih h
    exact ⟨false :: taken, chooses_cons_false_iff.2 ⟨hdefault, htaken⟩, by simpa using hnames⟩
  | case7 => cases h

/-- The first parameter is chosen if the first label is its own: a later parameter cannot take that
label. -/
theorem Chooses.head_iff {slot : Slot} (hfresh : slot.label ∉ slots.map Slot.label)
    (h : Chooses (slot :: slots) labels (take :: taken)) :
    take = true ↔ labels.head? = some slot.label := by
  cases take with
  | true =>
    obtain ⟨rest, rfl, -⟩ := chooses_cons_true_iff.1 h
    simp
  | false =>
    obtain ⟨-, hrest⟩ := chooses_cons_false_iff.1 h
    have hother : labels.head? ≠ some slot.label := by
      intro hhead
      exact hfresh (hrest.mem_of_mem (List.mem_of_head? hhead))
    simp [hother]

/-- The search finds every choice among parameters with different labels. -/
theorem matchLabels_of_chooses (hdistinct : (slots.map Slot.label).Nodup)
    (h : Chooses slots labels taken) :
    matchLabels slots labels = some ((picked slots taken).map Slot.name) := by
  induction slots generalizing labels taken with
  | nil =>
    obtain ⟨rfl, rfl⟩ := chooses_nil_iff.1 h
    rfl
  | cons slot slots ih =>
    obtain ⟨hfresh, hrest⟩ := List.nodup_cons.1 hdistinct
    cases taken with
    | nil => cases h.length_eq
    | cons take taken =>
      cases take with
      | true =>
        obtain ⟨labels, rfl, hchosen⟩ := chooses_cons_true_iff.1 h
        simp [matchLabels, ih hrest hchosen]
      | false =>
        obtain ⟨hdefault, hchosen⟩ := chooses_cons_false_iff.1 h
        rw [picked_cons_false, ← ih hrest hchosen]
        cases labels with
        | nil => simp [matchLabels, hdefault]
        | cons label labels =>
          have hother : label ≠ slot.label := by
            intro hsame
            exact hfresh (hsame ▸ hchosen.mem_of_mem List.mem_cons_self)
          simp [matchLabels, hother, hdefault]

/-- Parameters with different labels leave one choice. -/
theorem Chooses.unique (hdistinct : (slots.map Slot.label).Nodup) (h : Chooses slots labels taken)
    (hother : Chooses slots labels other) : other = taken := by
  induction slots generalizing labels taken other with
  | nil => rw [(chooses_nil_iff.1 h).2, (chooses_nil_iff.1 hother).2]
  | cons slot slots ih =>
    obtain ⟨hfresh, hrest⟩ := List.nodup_cons.1 hdistinct
    cases taken with
    | nil => cases h.length_eq
    | cons take taken =>
      cases other with
      | nil => cases hother.length_eq
      | cons take' other =>
        -- both heads say whether the first label is that of the first parameter
        have hheads : take' = take := by
          rw [Bool.eq_iff_iff, hother.head_iff hfresh, h.head_iff hfresh]
        subst hheads
        congr 1
        cases take' with
        | true =>
          obtain ⟨left, rfl, hleft⟩ := chooses_cons_true_iff.1 h
          obtain ⟨right, hright, hchosen⟩ := chooses_cons_true_iff.1 hother
          obtain rfl := (List.cons.inj hright).2
          exact ih hrest hleft hchosen
        | false => exact ih hrest (chooses_cons_false_iff.1 h).2 (chooses_cons_false_iff.1 hother).2

/-- The search finds choices only, and among parameters with different labels it finds the choice
if there is one, which is then the only one. -/
theorem matchLabels_sound_and_complete (slots : List Slot) (labels : List (Option String)) :
    (∀ names, matchLabels slots labels = some names →
        ∃ taken, Chooses slots labels taken ∧ (picked slots taken).map Slot.name = names) ∧
      ((slots.map Slot.label).Nodup → ∀ taken, Chooses slots labels taken →
        matchLabels slots labels = some ((picked slots taken).map Slot.name) ∧
          ∀ other, Chooses slots labels other → other = taken) := by
  constructor
  · intro names h
    exact exists_chooses_of_matchLabels h
  · intro hdistinct taken h
    constructor
    · exact matchLabels_of_chooses hdistinct h
    · intro other hother
      exact h.unique hdistinct hother

theorem matchLabels_skips_two_defaults :
    let slots : List Slot := [⟨none, "title", false⟩, ⟨some "font", "font", true⟩,
      ⟨some "size", "size", true⟩, ⟨some "done", "done", true⟩]
    (slots.map Slot.label).Nodup ∧ Chooses slots [none, some "size"] [true, false, true, false] ∧
      matchLabels slots [none, some "size"] = some ["title", "size"] ∧
        ∀ other, Chooses slots [none, some "size"] other → other = [true, false, true, false] := by
  intro slots
  have hdistinct : (slots.map Slot.label).Nodup := by decide
  have hchosen : Chooses slots [none, some "size"] [true, false, true, false] := by decide
  exact ⟨hdistinct, hchosen,
    (matchLabels_sound_and_complete slots [none, some "size"]).2 hdistinct _ hchosen⟩

-- Of two parameters with one label the search takes the first, and then the second has no argument.
example :
    let slots : List Slot := [⟨some "by", "first", true⟩, ⟨some "by", "second", false⟩]
    matchLabels slots [some "by"] = none ∧ Chooses slots [some "by"] [false, true] := by
  decide

end SwiftToKotlin.Lowering.DeclaredTypes
