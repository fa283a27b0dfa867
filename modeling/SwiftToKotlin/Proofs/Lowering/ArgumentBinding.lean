import Mathlib.Data.List.Forall2
import SwiftToKotlin.Conversion

/-!
# The parameters that arguments are bound to

A call of a declared constructor or enum case is matched to a list of parameters by its labels. The
lowered call names its arguments if there is a label among them, and a closure at the end becomes a
trailing lambda, which Kotlin binds to the last parameter. So the arguments reach the parameters
they were matched to unless defaulted parameters are skipped in a place that the call does not show:
behind the lambda, or anywhere in a call without labels.
-/

namespace SwiftToKotlin

/-! ## Binding in Kotlin -/

namespace Kotlin

variable {α : Type}

/-- The parameters that arguments are bound to, in order. A named argument is bound to the declared
parameter of that name, a positional one to the first parameter that is free, if there is one. -/
def boundParameters (declared : List String) :
    List String → List (Argument α) → List (Option String)
  | _, [] => []
  | free, ⟨some name, _⟩ :: rest => declared.find? (· == name) :: boundParameters declared free rest
  | free, ⟨none, _⟩ :: rest => free.head? :: boundParameters declared free.tail rest

theorem boundParameters_of_named
    (hargs : args.map Argument.name = names.map some) (hnames : names ⊆ declared) :
    boundParameters declared free args = names.map some := by
  induction names generalizing args with
  | nil =>
    rw [List.map_eq_nil_iff.1 hargs]
    rfl
  | cons name names ih =>
    obtain ⟨⟨_, value⟩, rest, rfl, rfl, hrest⟩ := List.map_eq_cons_iff.1 hargs
    have hfound : declared.find? (· == name) = some name := by
      cases h : declared.find? (· == name) with
      | none =>
        have hdiffers := List.find?_eq_none.1 h name (hnames List.mem_cons_self)
        exact absurd (beq_self_eq_true name) hdiffers
      | some found =>
        have hsame := List.find?_some (p := (· == name)) h
        rw [beq_iff_eq.1 hsame]
    rw [boundParameters, hfound, ih hrest (List.subset_of_cons_subset hnames), List.map_cons]

theorem boundParameters_of_positional (declared) {args : List (Argument α)}
    (hargs : ∀ arg ∈ args, arg.name = none) (hfree : args.length ≤ free.length) :
    boundParameters declared free args = (free.take args.length).map some := by
  induction args generalizing free with
  | nil => rfl
  | cons arg rest ih =>
    obtain ⟨name, value⟩ := arg
    obtain rfl : name = none := hargs _ List.mem_cons_self
    cases free with
    | nil => cases hfree
    | cons parameter free =>
      have hrest := ih (fun arg h => hargs arg (List.mem_cons_of_mem _ h))
        (Nat.le_of_succ_le_succ hfree)
      rw [boundParameters, List.tail_cons, hrest]
      rfl

namespace Node

/-- The values that a call passes, with the trailing lambda at the end. -/
def passedValues : Node → List Node
  | ⟨.call _ args trailing, _⟩ => args.map Argument.value ++ trailing.toList
  | _ => []

/-- The parameters that the values of a call are bound to if its callee declares the given ones. A
trailing lambda is bound to the last one. -/
def reachedParameters (declared : List String) : Node → List (Option String)
  | ⟨.call _ args trailing, _⟩ =>
    boundParameters declared declared args ++ trailing.toList.map fun _ => declared.getLast?
  | _ => []

end Node

end Kotlin

namespace Lowering

open Swift (Node Argument)

/-! ## Matching of labels -/

namespace DeclaredTypes

variable {names : List String} {slots : List Slot}

/-- The parameters that arguments are matched to are some of the declared ones, in order, and have
the labels of the arguments. -/
theorem exists_sublist_of_matchLabels (h : matchLabels slots labels = some names) :
    ∃ chosen : List Slot, chosen.Sublist slots ∧ chosen.map Slot.label = labels ∧
      chosen.map Slot.name = names := by
  fun_induction matchLabels slots labels generalizing names with
  | case1 =>
    obtain rfl := Option.some.inj h
    exact ⟨[], .slnil, rfl, rfl⟩
  | case2 => cases h
  | case3 slot slots _ ih =>
    obtain ⟨chosen, hsublist, hparts⟩ := ih h
    exact ⟨chosen, hsublist.cons slot, hparts⟩
  | case4 => cases h
  | case5 slot slots labels ih =>
    obtain ⟨matched, hmatched, rfl⟩ := Option.map_eq_some_iff.1 h
    obtain ⟨chosen, hsublist, rfl, rfl⟩ := ih hmatched
    exact ⟨slot :: chosen, hsublist.cons_cons slot, rfl, rfl⟩
  | case6 slot slots label labels _ _ ih =>
    obtain ⟨chosen, hsublist, hparts⟩ := ih h
    exact ⟨chosen, hsublist.cons slot, hparts⟩
  | case7 => cases h

/-- The names come from the first constructor that takes the labels. -/
theorem exists_of_argumentNames {types : DeclaredTypes}
    (h : types.argumentNames name labels = some names) :
    ∃ constructors slots, types.constructors? name = some constructors ∧
      constructors.find? (fun slots => (matchLabels slots labels).isSome) = some slots ∧
      matchLabels slots labels = some names := by
  obtain ⟨constructors, hconstructors, hnames⟩ := Option.bind_eq_some_iff.1 h
  obtain ⟨earlier, slots, later, rfl, hmatched, hearlier⟩ := List.findSome?_eq_some_iff.1 hnames
  refine ⟨_, slots, hconstructors, ?_, hmatched⟩
  rw [List.find?_eq_some_iff_append]
  refine ⟨Option.isSome_of_eq_some hmatched, earlier, later, rfl, ?_⟩
  intro other hother
  rw [hearlier other hother]
  rfl

/-- The parameters in Kotlin. -/
def written (slots : List Slot) : List String :=
  (slots.map Slot.name).map identifier

theorem length_of_matchLabels (h : matchLabels slots labels = some names) :
    names.length = labels.length := by
  obtain ⟨chosen, -, rfl, rfl⟩ := exists_sublist_of_matchLabels h
  rw [List.length_map, List.length_map]

theorem sublist_written_of_matchLabels (h : matchLabels slots labels = some names) :
    (names.map identifier).Sublist (written slots) := by
  obtain ⟨chosen, hsublist, -, rfl⟩ := exists_sublist_of_matchLabels h
  exact (hsublist.map Slot.name).map identifier

end DeclaredTypes

namespace Call

open DeclaredTypes

variable (descent : Descent) (context : Context)

/-! ## The arguments of a lowered call -/

def hasLabels (arguments : List (Argument Node)) : Bool :=
  arguments.any (·.label.isSome)

def endsInClosure (arguments : List (Argument Node)) : Bool :=
  arguments.getLast?.any fun last => isClosure last.value

/-- The arguments that stand in the parentheses of the lowered call. -/
def enclosed (arguments : List (Argument Node)) : List (Argument Node) :=
  if endsInClosure arguments then arguments.dropLast else arguments

/-- Whether a value is what an argument becomes in some state. -/
def Becomes (argument : Argument Node) (value : Kotlin.Node) : Prop :=
  ∃ state, (((descent.kept argument.value).run context).run state).1 = value

theorem becomes_of_isClosure (h : isClosure argument.value = true) (state) :
    Becomes descent context argument
      (((descent.value argument.value).run context).run state).1 := by
  have hplace : Descent.placedStruct argument.value = pure none := by
    have hnot : Descent.isPlace argument.value = false := by
      unfold isClosure at h
      unfold Descent.isPlace
      split at h <;> simp_all
    rw [Descent.placedStruct, hnot]
    rfl
  refine ⟨state, ?_⟩
  unfold Descent.kept
  rw [hplace]
  rfl

theorem becomes_namedArguments (names arguments state) :
    List.Forall₂ (Becomes descent context) arguments
      ((((namedArguments descent names arguments).run context).run state).1.map
        Kotlin.Argument.value) := by
  induction arguments generalizing names state with
  | nil => exact .nil
  | cons argument rest ih => exact .cons ⟨state, rfl⟩ (ih names.tail _)

theorem map_name_namedArguments (names arguments state) :
    (((namedArguments descent names arguments).run context).run state).1.map
        Kotlin.Argument.name =
      (List.range arguments.length).map fun i => names[i]?.map identifier := by
  induction arguments generalizing names state with
  | nil => rfl
  | cons argument rest ih =>
    have hrest := ih names.tail (((descent.kept argument.value).run context).run state).2
    simp only [List.getElem?_tail] at hrest
    rw [List.length_cons, List.range_succ_eq_map, List.map_cons, List.map_map,
      ← List.head?_eq_getElem?]
    exact congrArg (_ :: ·) hrest

theorem name_namedArguments_nil (arguments state) :
    ∀ arg ∈ (((namedArguments descent [] arguments).run context).run state).1, arg.name = none := by
  intro arg harg
  have hname := List.mem_map_of_mem (f := Kotlin.Argument.name) harg
  rw [map_name_namedArguments] at hname
  exact (by simpa using hname : _ ∧ arg.name = none).2

theorem length_namedArguments (names arguments state) :
    (((namedArguments descent names arguments).run context).run state).1.length =
      arguments.length := by
  have hvalues := (becomes_namedArguments descent context names arguments state).length_eq
  rw [hvalues, List.length_map]

theorem map_name_namedArguments_of_le (h : arguments.length ≤ names.length) (state) :
    (((namedArguments descent names arguments).run context).run state).1.map
        Kotlin.Argument.name =
      ((names.map identifier).take arguments.length).map some := by
  rw [map_name_namedArguments]
  apply List.ext_getElem?
  intro i
  by_cases hi : i < arguments.length
  · have hname : i < names.length := Nat.lt_of_lt_of_le hi h
    simp [hi, hname]
  · simp [hi, List.getElem?_take]

theorem boundParameters_namedArguments (hnames : (names.map identifier).Sublist declared)
    (hlength : arguments.length ≤ names.length) (labelled : Bool) (state) :
    Kotlin.boundParameters declared declared
        (((namedArguments descent (if labelled then names else []) arguments).run context).run
          state).1 =
      ((if labelled then names.map identifier else declared).take arguments.length).map some := by
  cases labelled with
  | true =>
    have hwritten := map_name_namedArguments_of_le descent context hlength state
    have hsubset := (List.take_sublist arguments.length (names.map identifier)).subset
    exact Kotlin.boundParameters_of_named hwritten (List.Subset.trans hsubset hnames.subset)
  | false =>
    have hfree : arguments.length ≤ declared.length := by
      have hle := hnames.length_le
      rw [List.length_map] at hle
      exact Nat.le_trans hlength hle
    have hmade := length_namedArguments descent context [] arguments state
    have hbound := Kotlin.boundParameters_of_positional declared
      (name_namedArguments_nil descent context arguments state) (hmade ▸ hfree)
    rwa [hmade] at hbound

/-! ## The call -/

variable (state : State) (arguments : List (Argument Node)) (range : Option SourceRange)
  {names : List String} {slots : List Slot}

theorem run_withArguments_of_closure (callee : Kotlin.Node) (first last names)
    (h : isClosure last.value = true) :
    (((withArguments descent callee (first ++ [last]) names range).run context).run state).1 =
      let trailing := ((descent.value last.value).run context).run state
      ⟨.call callee
        (((namedArguments descent (if hasLabels (first ++ [last]) then names.getD [] else [])
          first).run context).run trailing.2).1
        (some trailing.1), range⟩ := by
  unfold withArguments
  rw [List.getLast?_concat, List.dropLast_concat]
  dsimp only
  rw [if_pos h]
  rfl

theorem run_withArguments_of_plain (callee names) (h : endsInClosure arguments = false) :
    (((withArguments descent callee arguments names range).run context).run state).1 =
      ⟨.call callee
        (((namedArguments descent (if hasLabels arguments then names.getD [] else [])
          arguments).run context).run state).1
        none, range⟩ := by
  unfold withArguments
  cases hlast : arguments.getLast? with
  | none =>
    rw [List.getLast?_eq_none_iff.1 hlast]
    rfl
  | some last =>
    have hplain : isClosure last.value = false := by
      rwa [endsInClosure, hlast] at h
    dsimp only
    rw [if_neg (Bool.eq_false_iff.1 hplain)]
    rfl

/-- How a lowered call passes arguments that were matched to the names of parameters. -/
structure Passes (slots : List Slot) (names : List String) (arguments : List (Argument Node))
    (call : Kotlin.Node) : Prop where
  /-- All arguments are passed, in order. -/
  values : List.Forall₂ (Becomes descent context) arguments call.passedValues
  /-- By name in a call with labels and in the order of declaration in another, except that a
  closure at the end is always bound to the last parameter. -/
  reached : call.reachedParameters (written slots) =
    ((if hasLabels arguments then names.map identifier else written slots).take
        (enclosed arguments).length).map some ++
      if endsInClosure arguments then [(written slots).getLast?] else []
  /-- When the arguments reach the parameters they were matched to. -/
  reaches_iff : call.reachedParameters (written slots) = (names.map identifier).map some ↔
    (hasLabels arguments = true ∨
      (names.map identifier).take (enclosed arguments).length =
        (written slots).take (enclosed arguments).length) ∧
    (endsInClosure arguments = true →
      (names.map identifier).getLast? = (written slots).getLast?)
  /-- They do if no parameter was skipped. -/
  reaches_of_length : names.length = slots.length →
    call.reachedParameters (written slots) = (names.map identifier).map some

theorem length_names {arguments : List (Argument Node)}
    (h : matchLabels slots (labels arguments) = some names) : names.length = arguments.length := by
  rw [length_of_matchLabels h, labels, List.length_map]

theorem length_enclosed :
    (enclosed arguments).length + (if endsInClosure arguments then 1 else 0) =
      arguments.length := by
  unfold enclosed
  split
  · next h =>
    have hpositive : arguments ≠ [] := by
      rintro rfl
      cases h
    rw [List.length_dropLast]
    exact Nat.sub_add_cancel (List.length_pos_iff.2 hpositive)
  · rfl

theorem map_some_eq_append (names : List String) {arguments : List (Argument Node)}
    (h : names.length = arguments.length) :
    names.map some = (names.take (enclosed arguments).length).map some ++
      if endsInClosure arguments then [names.getLast?] else [] := by
  have hlength := length_enclosed arguments
  by_cases hclosure : endsInClosure arguments = true
  · rw [if_pos hclosure] at hlength ⊢
    rcases List.eq_nil_or_concat' names with rfl | ⟨first, last, rfl⟩
    · rw [← h] at hlength
      cases hlength
    · have hfirst : (enclosed arguments).length = first.length := by
        rw [List.length_append, List.length_singleton, ← hlength] at h
        exact (Nat.add_right_cancel h).symm
      rw [List.take_left' hfirst.symm, List.getLast?_concat, List.map_append]
      rfl
  · rw [if_neg hclosure] at hlength ⊢
    have hall : names.length ≤ (enclosed arguments).length := by
      rw [h, ← hlength]
      exact Nat.le_refl _
    rw [List.take_of_length_le hall, List.append_nil]

theorem append_last_eq_iff (hnames : count ≤ names.length) (hdeclared : count ≤ declared.length)
    (labelled closure : Bool) :
    (((if labelled then names else declared).take count).map some ++
        if closure then [declared.getLast?] else []) =
      ((names.take count).map some ++ if closure then [names.getLast?] else []) ↔
    (labelled = true ∨ names.take count = declared.take count) ∧
      (closure = true → names.getLast? = declared.getLast?) := by
  have hlength : (((if labelled then names else declared).take count).map some).length =
      ((names.take count).map some).length := by
    cases labelled <;> simp [hnames, hdeclared]
  constructor
  · intro h
    obtain ⟨hfirst, hlast⟩ := List.append_inj h hlength
    constructor
    · cases labelled with
      | true => exact .inl rfl
      | false => exact .inr (List.map_injective_iff.2 (fun _ _ => Option.some.inj) hfirst).symm
    · rintro rfl
      exact (List.singleton_inj.1 hlast).symm
  · rintro ⟨hfirst, hlast⟩
    have htake : (if labelled then names else declared).take count = names.take count := by
      cases labelled with
      | true => rfl
      | false => exact (hfirst.resolve_left Bool.false_ne_true).symm
    rw [htake]
    cases closure with
    | true => rw [hlast rfl]
    | false => rfl

variable {descent context} in
theorem Passes.of_reached {arguments : List (Argument Node)}
    (hmatched : matchLabels slots (labels arguments) = some names)
    (hvalues : List.Forall₂ (Becomes descent context) arguments call.passedValues)
    (hreached : call.reachedParameters (written slots) =
      ((if hasLabels arguments then names.map identifier else written slots).take
          (enclosed arguments).length).map some ++
        if endsInClosure arguments then [(written slots).getLast?] else []) :
    Passes descent context slots names arguments call := by
  have hlength := length_names hmatched
  have hsublist := sublist_written_of_matchLabels hmatched
  have hiff : call.reachedParameters (written slots) = (names.map identifier).map some ↔
      (hasLabels arguments = true ∨
        (names.map identifier).take (enclosed arguments).length =
          (written slots).take (enclosed arguments).length) ∧
      (endsInClosure arguments = true →
        (names.map identifier).getLast? = (written slots).getLast?) := by
    have hsplit := map_some_eq_append (names.map identifier) ((List.length_map _).trans hlength)
    have hnames : (enclosed arguments).length ≤ (names.map identifier).length := by
      rw [List.length_map, hlength, ← length_enclosed arguments]
      exact Nat.le_add_right _ _
    rw [hreached, hsplit]
    exact append_last_eq_iff hnames (Nat.le_trans hnames hsublist.length_le) _ _
  refine ⟨hvalues, hreached, hiff, ?_⟩
  intro hall
  have hwritten : names.map identifier = written slots := by
    apply hsublist.eq_of_length
    rw [List.length_map, hall, written, List.length_map, List.length_map]
  rw [hiff, hwritten]
  exact ⟨.inr rfl, fun _ => rfl⟩

theorem passes_withArguments {arguments : List (Argument Node)}
    (h : matchLabels slots (labels arguments) = some names) (callee) :
    Passes descent context slots names arguments
      (((withArguments descent callee arguments (some names) range).run context).run state).1 := by
  have hlength := length_names h
  have hsublist := sublist_written_of_matchLabels h
  by_cases hclosure : endsInClosure arguments = true
  · obtain ⟨first, last, rfl, hlast⟩ : ∃ first last, arguments = first ++ [last] ∧
        isClosure last.value = true := by
      rcases List.eq_nil_or_concat' arguments with rfl | ⟨first, last, rfl⟩
      · cases hclosure
      · rw [endsInClosure, List.getLast?_concat] at hclosure
        exact ⟨first, last, rfl, hclosure⟩
    have henclosed : enclosed (first ++ [last]) = first := by
      rw [enclosed, if_pos hclosure, List.dropLast_concat]
    have hle : first.length ≤ names.length := by
      rw [hlength, List.length_append]
      exact Nat.le_add_right _ _
    rw [run_withArguments_of_closure descent context state range callee first last _ hlast]
    apply Passes.of_reached h
    · have hfirst := becomes_namedArguments descent context
        (if hasLabels (first ++ [last]) then names else []) first
        (((descent.value last.value).run context).run state).2
      exact List.rel_append hfirst (.cons (becomes_of_isClosure descent context hlast state) .nil)
    · rw [henclosed, if_pos hclosure]
      exact congrArg (· ++ _) (boundParameters_namedArguments descent context hsublist hle _ _)
  · have henclosed : enclosed arguments = arguments := if_neg hclosure
    rw [run_withArguments_of_plain descent context state arguments range callee _
      (Bool.eq_false_iff.2 hclosure)]
    apply Passes.of_reached h
    · have hall := becomes_namedArguments descent context
        (if hasLabels arguments then names else []) arguments state
      rw [Kotlin.Node.passedValues, Option.toList, List.append_nil]
      exact hall
    · rw [henclosed, if_neg hclosure]
      exact congrArg (· ++ _)
        (boundParameters_namedArguments descent context hsublist (Nat.le_of_eq hlength.symm)
          _ _)

theorem run_construction (name : String) (callee : Node)
    (h : isRawValueLookup context.types (context.types.resolve name) arguments = false) :
    ((construction descent name callee arguments range).run context).run state =
      ((withArguments descent (.reference (identifier name) callee.range) arguments
        (context.types.argumentNames (context.types.resolve name) (labels arguments))
        range).run context).run state := by
  change StateT.run ((if isRawValueLookup context.types (context.types.resolve name) arguments
    then _ else _ : Lower Kotlin.Node) context) state = _
  rw [h]
  rfl

/-- A construction of a declared type or of an enum case whose labels match passes every argument.
In a call with labels the arguments reach the parameters that they were matched to by name, in
another call they reach the first ones, and a closure at the end always reaches the last one. -/
theorem constructions_pass_arguments (descent : Descent) (context : Context) (callee : Node)
    (arguments : List (Argument Node)) (range : Option SourceRange) (state : State) :
    (∀ name names,
      context.types.argumentNames (context.types.resolve name) (labels arguments) = some names →
      isRawValueLookup context.types (context.types.resolve name) arguments = false →
      ∃ constructors slots,
        context.types.constructors? (context.types.resolve name) = some constructors ∧
        constructors.find? (fun slots => (matchLabels slots (labels arguments)).isSome) =
          some slots ∧
        matchLabels slots (labels arguments) = some names ∧
        Passes descent context slots names arguments
          (((construction descent name callee arguments range).run context).run state).1) ∧
    ∀ enum case names,
      context.types.caseArgumentNames enum case (labels arguments) = some names →
      ∃ decl, context.types.case? enum case = some decl ∧
        matchLabels (caseSlots decl) (labels arguments) = some names ∧
        Passes descent context (caseSlots decl) names arguments
          (((caseConstruction descent enum case callee arguments range).run context).run
            state).1 := by
  constructor
  · intro name names hnames hraw
    obtain ⟨constructors, slots, hconstructors, hfirst, hmatched⟩ := exists_of_argumentNames hnames
    refine ⟨constructors, slots, hconstructors, hfirst, hmatched, ?_⟩
    rw [run_construction descent context state arguments range name callee hraw, hnames]
    exact passes_withArguments descent context state range hmatched _
  · intro enum case names hnames
    obtain ⟨decl, hdecl, hmatched⟩ := Option.bind_eq_some_iff.1 hnames
    refine ⟨decl, hdecl, hmatched, ?_⟩
    have hcall := passes_withArguments descent context
      (((caseReference enum case callee.range).run context).run state).2 range hmatched
      (((caseReference enum case callee.range).run context).run state).1
    rw [← hnames] at hcall
    exact hcall

/-- A class and an enum with a defaulted parameter between two others. -/
def jobTypes : DeclaredTypes :=
  let params : List (Swift.Param Node) :=
    [⟨none, "title", .named "String" [], none⟩,
      ⟨some "retries", "retries", .named "Int" [], some ⟨.literal (.integer "3"), none⟩⟩,
      ⟨some "work", "body", .function [] (.named "Int" []) false, none⟩]
  ⟨[.type .classType ⟨"Job", [], [⟨.initializer params (some []), none⟩]⟩,
    .type .enumType ⟨"Step", [], [⟨.enumCase ⟨"run", params, none⟩, none⟩]⟩]⟩

/-- A title and a labelled closure reach their parameters past the skipped one. -/
theorem job_passes_arguments :
    let context : Context := ⟨jobTypes, []⟩
    let arguments : List (Argument Node) :=
      [⟨none, ⟨.literal (.string "copy"), none⟩⟩,
        ⟨some "work", ⟨.closure [] [⟨.literal (.integer "1"), none⟩], none⟩⟩]
    let callee : Node := ⟨.reference "Job" none, none⟩
    (∃ constructors slots, jobTypes.constructors? "Job" = some constructors ∧
      constructors.find? (fun slots => (matchLabels slots (labels arguments)).isSome) =
        some slots ∧
      matchLabels slots (labels arguments) = some ["title", "body"] ∧
      Passes (descend 3) context slots ["title", "body"] arguments
        (((construction (descend 3) "Job" callee arguments none).run context).run {}).1) ∧
    ∃ decl, jobTypes.case? "Step" "run" = some decl ∧
      matchLabels (caseSlots decl) (labels arguments) = some ["title", "work"] ∧
      Passes (descend 3) context (caseSlots decl) ["title", "work"] arguments
        (((caseConstruction (descend 3) "Step" "run" callee arguments none).run context).run
          {}).1 :=
  ⟨(constructions_pass_arguments (descend 3) ⟨jobTypes, []⟩ _ _ none {}).1 "Job" _ rfl rfl,
    (constructions_pass_arguments (descend 3) ⟨jobTypes, []⟩ _ _ none {}).2 "Step" "run" _ rfl⟩

end Call

end Lowering

namespace Conversion

open Lowering (DeclaredTypes)

/-- A class whose first parameter takes a function and whose second one has a default, and a call
with a closure for the first. -/
def skippedPriority : Dump.Node :=
  ⟨"source_file", [],
    [⟨"class_decl", [("name", "Task")], [⟨"constructor_decl", [], [⟨"parameter_list", [],
        [⟨"parameter", [("name", "work"), ("type", "() -> Int")], [], none⟩,
          ⟨"parameter", [("name", "priority"), ("type", "Int")],
            [⟨"integer_literal_expr", [("value", "0")], [], none⟩], none⟩], none⟩,
        ⟨"brace_stmt", [], [], none⟩], none⟩], none⟩,
      ⟨"var_decl", [("name", "t"), ("let", "")],
        [⟨"call_expr", [], [⟨"declref_expr", [("name", "Task")], [], none⟩,
          ⟨"argument", [("label", "work")], [⟨"closure_expr", [], [⟨"brace_stmt", [],
            [⟨"integer_literal_expr", [("value", "1")], [], none⟩], none⟩], none⟩], none⟩],
          none⟩], none⟩], none⟩

/-- The closure is matched to the first parameter, but the trailing lambda reaches the second. -/
theorem closure_misses_its_parameter :
    let call : Kotlin.Node := ⟨.call (.reference "Task" none) []
      (some ⟨.lambda [] [.literal (.int "1") none], none⟩), none⟩
    (DeclaredTypes.ofTree (ofDump {} skippedPriority).swift).argumentNames "Task" [some "work"] =
      some ["work"] ∧
    (ofDump {} skippedPriority).kotlin =
      ⟨.file [⟨.classDef
          { name := "Task", kind := .plain
            members := [⟨.secondaryConstructor
              [{ name := "work", ty := .function [] (.named "Int" []) },
                { name := "priority", ty := .named "Int" []
                  defaultValue := some (.literal (.int "0") none) }] [], none⟩] }, none⟩,
        ⟨.property { name := "t", binding := .val, init := some call }, none⟩], none⟩ ∧
    call.reachedParameters ["work", "priority"] = [some "priority"] := by
  with_unfolding_all exact ⟨rfl, rfl, rfl⟩

end Conversion

end SwiftToKotlin
