import SwiftToKotlin.Proofs.Lowering.DeclaredForms
import SwiftToKotlin.Proofs.Swift.IntegerLiterals

/-!
# Raw values of enumerations

An entry of an enumeration with raw values has the value that its case gives, or one that is found
for it: the name of the case where the values are texts, and otherwise the integer that is counted
up to since the last value that was given. Counting starts only from a decimal numeral. Behind a
literal in another notation, and beyond 64 bits, there is nothing to count from, and the entries get
no value although the literal denotes an integer.
-/

namespace SwiftToKotlin

/-- The integer that a constant denotes. -/
def Kotlin.Node.integer? (node : Kotlin.Node) : Option Int :=
  match node.construct with
  | .literal (.int text) => Text.integerValue? text.toList
  | .unary .neg ⟨.literal (.int text), _⟩ => (Text.integerValue? text.toList).map fun n => -n
  | _ => none

namespace Lowering

open Swift (Node TypeDecl EnumCaseDecl)
open DeclaredTypes

namespace Enum

/-! ## Counting -/

/-- The raw value that was given last. -/
def lastRawValue? (cases : List (EnumCaseDecl Node)) : Option Node :=
  cases.reverse.findSome? EnumCaseDecl.rawValue

/-- How many cases there are since the last raw value. -/
def stepsSince (cases : List (EnumCaseDecl Node)) : Nat :=
  (cases.reverse.takeWhile (·.rawValue.isNone)).length

/-- The integer that follows a raw value, if that is a decimal numeral. -/
def numeralAfter? (rawValue : Node) : Option Int :=
  match rawValue.construct with
  | .literal (.integer text) => (Text.readInteger text.toList).map (· + 1)
  | _ => none

/-- The integer that counting starts from behind the cases. -/
def countStart? (cases : List (EnumCaseDecl Node)) : Option Int :=
  match lastRawValue? cases with
  | some value => numeralAfter? value
  | none => some 0

/-- The integer that is counted up to behind the cases, as long as it fits. -/
def count? (cases : List (EnumCaseDecl Node)) : Option Int :=
  ((countStart? cases).map (· + (stepsSince cases : Int))).filter Text.fitsSigned

/-- Where a case without a raw value stands there is a count, behind others and one another. -/
def KeepCount (before cases : List (EnumCaseDecl Node)) : Prop :=
  ∀ i case, cases[i]? = some case → case.rawValue = none →
    (count? (before ++ cases.take i)).isSome = true

theorem keepCount_nil : KeepCount before [] := by
  simp [KeepCount]

theorem keepCount_cons :
    KeepCount before (case :: rest) ↔
      (case.rawValue = none → (count? before).isSome = true) ∧
        KeepCount (before ++ [case]) rest := by
  constructor
  · intro h
    constructor
    · intro hnone
      simpa using h 0 case rfl hnone
    · intro i other hother hnone
      simpa using h (i + 1) other hother hnone
  · rintro ⟨hfirst, hrest⟩ i other hother hnone
    cases i with
    | zero =>
      cases hother
      simpa using hfirst hnone
    | succ i => simpa using hrest i other hother hnone

theorem fitsSigned_iff :
    Text.fitsSigned n = true ↔ -9223372036854775808 ≤ n ∧ n < 9223372036854775808 := by
  have hpow : Int.pow 2 63 = 9223372036854775808 := rfl
  simp [Text.fitsSigned, hpow]

theorem fitsSigned_of_readInteger (h : Text.readInteger cs = some n) :
    Text.fitsSigned n = true := by
  obtain ⟨⟨-, hfits⟩, heq⟩ := Option.ite_none_right_eq_some.1 h
  cases heq
  exact hfits

/-- Counting starts above the least integer of 64 bits. -/
theorem le_of_countStart? (h : countStart? cases = some n) : -9223372036854775808 ≤ n := by
  unfold countStart? at h
  split at h
  · next value =>
    unfold numeralAfter? at h
    split at h
    · obtain ⟨m, hm, rfl⟩ := Option.map_eq_some_iff.1 h
      have hfits := fitsSigned_iff.1 (fitsSigned_of_readInteger hm)
      omega
    · cases h
  · cases h
    decide

theorem lastRawValue?_concat (cases case) :
    lastRawValue? (cases ++ [case]) = case.rawValue.or (lastRawValue? cases) := by
  unfold lastRawValue?
  rw [List.reverse_concat, List.findSome?_cons]
  cases case.rawValue <;> rfl

theorem stepsSince_concat (cases case) :
    stepsSince (cases ++ [case]) = if case.rawValue.isNone then stepsSince cases + 1 else 0 := by
  unfold stepsSince
  rw [List.reverse_concat, List.takeWhile_cons]
  split <;> rfl

theorem count?_nil : count? [] = some 0 := by
  decide

/-- Counting starts anew behind a raw value that is given. -/
theorem count?_concat_of_some (h : case.rawValue = some value) (cases) :
    count? (cases ++ [case]) = integerAfter? value := by
  have hstart : countStart? (cases ++ [case]) = numeralAfter? value := by
    rw [countStart?, lastRawValue?_concat, h]
    rfl
  have hsteps : stepsSince (cases ++ [case]) = 0 := by
    rw [stepsSince_concat, h]
    rfl
  unfold count? integerAfter?
  rw [hstart, hsteps, numeralAfter?]
  cases value.construct with
  | literal literal =>
    cases literal with
    | integer text =>
      cases hread : Text.readInteger text.toList with
      | none => simp [hread]
      | some n => simp [hread, successor?, Option.filter]
    | _ => rfl
  | _ => rfl

/-- Counting goes on behind a case without a raw value. -/
theorem count?_concat_of_none (h : case.rawValue = none) (cases) :
    count? (cases ++ [case]) = (count? cases).bind successor? := by
  have hstart : countStart? (cases ++ [case]) = countStart? cases := by
    rw [countStart?, lastRawValue?_concat, h]
    rfl
  have hsteps : stepsSince (cases ++ [case]) = stepsSince cases + 1 := by
    rw [stepsSince_concat, h]
    rfl
  unfold count?
  rw [hstart, hsteps]
  cases hn : countStart? cases with
  | none => rfl
  | some n =>
    have hle := le_of_countStart? hn
    simp only [Int.natCast_succ, ← Int.add_assoc, Option.filter]
    by_cases hfits : Text.fitsSigned (n + stepsSince cases) = true
    · simp [hfits, successor?]
    · -- once the count is too large it stays so
      have hover : ¬ Text.fitsSigned (n + stepsSince cases + 1) = true := by
        rw [fitsSigned_iff] at hfits ⊢
        omega
      simp [hfits, hover]

/-! ## Entries -/

/-- The raw values are texts, for which the names of the cases can stand. -/
def IsTextual (rawType : String) : Prop :=
  rawType = "String" ∨ rawType = "Character"

instance (rawType : String) : Decidable (IsTextual rawType) :=
  inferInstanceAs (Decidable (_ ∨ _))

section Entries

variable (descent : Descent) (context : Context) (rawType : String)

/-- The arguments of the entry for a case that stands behind others. -/
structure HasRawValue (before : List (EnumCaseDecl Node))
    (placed : EnumCaseDecl Node × Option SourceRange) (args : List Kotlin.Node) : Prop where
  given : ∀ value, placed.1.rawValue = some value →
    ∃ state, args = [(((descent.value value).run context).run state).1]
  named : placed.1.rawValue = none → IsTextual rawType →
    args = [.literal (.string placed.1.name) placed.2]
  counted : placed.1.rawValue = none → ¬ IsTextual rawType →
    args = ((count? before).map (integerLiteral · placed.2)).toList

/-- The entries for cases one after the other, behind others. -/
inductive HaveRawValues : List (EnumCaseDecl Node) →
    List (EnumCaseDecl Node × Option SourceRange) → List (Kotlin.EnumEntry Kotlin.Node) → Prop
  | nil : HaveRawValues before [] []
  | cons {others : List (Kotlin.EnumEntry Kotlin.Node)}
      (hfirst : HasRawValue descent context rawType before placed entry.args)
      (hrest : HaveRawValues (before ++ [placed.1]) rest others) :
      HaveRawValues before (placed :: rest) (entry :: others)

variable {descent context rawType}

/-- The next integer is the one that is counted up to, unless the raw values are texts. -/
def Follows (rawType : String) (before : List (EnumCaseDecl Node)) (next : Option Int) : Prop :=
  ¬ IsTextual rawType → next = count? before

theorem rawValue_returns (hnext : Follows rawType before next) (case range) :
    Returns context (rawValue descent rawType next case range) fun made =>
      HasRawValue descent context rawType before (case, range) made.1 ∧
        Follows rawType (before ++ [case]) made.2 := by
  unfold rawValue
  split
  · next value hvalue =>
    intro state
    have hgiven (other : Node) (h : case.rawValue = some other) : value = other :=
      Option.some.inj (hvalue.symm.trans h)
    constructor
    · exact
        { given := fun other h => ⟨state, by rw [← hgiven other h]; rfl⟩
          named := fun h => absurd (hvalue.symm.trans h) (Option.some_ne_none value)
          counted := fun h => absurd (hvalue.symm.trans h) (Option.some_ne_none value) }
    · exact fun _ => (count?_concat_of_some hvalue before).symm
  · next hvalue =>
    have hnone (value : Node) : case.rawValue ≠ some value := by simp [hvalue]
    split
    · next htext =>
      apply Returns.pure
      constructor
      · exact
          { given := fun value h => absurd h (hnone value)
            named := fun _ _ => rfl
            counted := fun _ h => absurd htext h }
      · exact fun h => absurd htext h
    · next htext =>
      have hcount := (count?_concat_of_none hvalue before).symm
      rw [← hnext htext] at hcount
      have hargs {args : List Kotlin.Node}
          (h : args = (next.map (integerLiteral · range)).toList) :
          HasRawValue descent context rawType before (case, range) args :=
        { given := fun value h => absurd h (hnone value)
          named := fun _ h => absurd h htext
          counted := fun _ _ => by rw [h, hnext htext] }
      cases next with
      | none => exact .pure ⟨hargs rfl, fun _ => hcount⟩
      | some n => exact .pure ⟨hargs rfl, fun _ => hcount⟩

theorem entries_haveRawValues (enum : String) (hnext : Follows rawType before next) (cases) :
    Returns context (entries descent enum (some rawType) next cases)
      (HaveRawValues descent context rawType before cases) := by
  induction cases generalizing before next with
  | nil => exact .pure .nil
  | cons placed rest ih =>
    apply Returns.after
    intro name
    refine (rawValue_returns hnext placed.1 placed.2).bind ?_
    intro made hmade
    refine (ih hmade.2).bind ?_
    intro others hothers
    exact .pure (.cons hmade.1 hothers)

/-- There is one argument, unless a count is needed and lost. -/
theorem HasRawValue.length_args (h : HasRawValue descent context rawType before placed args) :
    args.length =
      if placed.1.rawValue = none ∧ ¬ IsTextual rawType ∧ count? before = none then 0 else 1 := by
  cases hvalue : placed.1.rawValue with
  | some value =>
    obtain ⟨state, rfl⟩ := h.given value hvalue
    simp
  | none =>
    by_cases htext : IsTextual rawType
    · rw [h.named hvalue htext]
      simp [htext]
    · rw [h.counted hvalue htext]
      cases count? before <;> simp [htext]

theorem HaveRawValues.length_eq {entries : List (Kotlin.EnumEntry Kotlin.Node)}
    (h : HaveRawValues descent context rawType before cases entries) :
    entries.length = cases.length := by
  induction h with
  | nil => rfl
  | cons _ _ ih => simp [ih]

theorem HaveRawValues.exists_entry {entries : List (Kotlin.EnumEntry Kotlin.Node)}
    (h : HaveRawValues descent context rawType before cases entries)
    (hi : cases[i]? = some placed) :
    ∃ entry, entries[i]? = some entry ∧
      HasRawValue descent context rawType (before ++ (cases.take i).map Prod.fst) placed
        entry.args := by
  induction h generalizing i with
  | nil => cases hi
  | @cons before first rest entry others hfirst hrest ih =>
    cases i with
    | zero =>
      cases hi
      exact ⟨entry, rfl, by simpa using hfirst⟩
    | succ i =>
      obtain ⟨other, hother, hvalue⟩ := ih hi
      exact ⟨other, hother, by simpa using hvalue⟩

/-! ## Integers -/

/-- The integer that a raw value is, if it is an integer literal. -/
def literalValue? (rawValue : Node) : Option Int :=
  match rawValue.construct with
  | .literal (.integer text) => Text.integerValue? text.toList
  | _ => none

/-- The raw values of an enum of integers: the one that is given, or one more than that of the case
before. -/
def rawIntegers : Int → List (EnumCaseDecl Node) → List Int
  | _, [] => []
  | next, case :: rest =>
    let n := (case.rawValue.bind literalValue?).getD next
    n :: rawIntegers (n + 1) rest

/-- A count that starts behind an integer literal is one more than what the literal denotes. -/
theorem eq_of_integerAfter? (hvalue : literalValue? value = some n)
    (hafter : integerAfter? value = some m) : n + 1 = m := by
  unfold literalValue? at hvalue
  unfold integerAfter? at hafter
  split at hvalue
  · next text hc =>
    rw [hc] at hafter
    obtain ⟨k, hread, hnext⟩ := Option.bind_eq_some_iff.1 hafter
    obtain ⟨-, heq⟩ := Option.ite_none_right_eq_some.1 hnext
    cases heq
    rw [Text.eq_of_readInteger hread hvalue]
  · cases hvalue

theorem integer?_integerLiteral (n : Int) (range) : (integerLiteral n range).integer? = some n := by
  unfold integerLiteral
  split
  · next hneg =>
    change (Text.integerValue? (toString n.natAbs).toList).map (fun n => -n) = some n
    rw [Text.integerValue?_toString, Option.map_some]
    congr 1
    omega
  · next hneg =>
    change Text.integerValue? (toString n.natAbs).toList = some n
    rw [Text.integerValue?_toString]
    congr 1
    omega

/-- The raw value is an integer literal, and what it is lowered to denotes the same integer. -/
structure IsInteger (descent : Descent) (context : Context) (value : Node) (n : Int) : Prop where
  literal : literalValue? value = some n
  lowered : ∀ state, (((descent.value value).run context).run state).1.integer? = some n

/-- The values of the entries are the raw values of the cases exactly if no count is lost. -/
theorem HaveRawValues.values_eq_iff {entries : List (Kotlin.EnumEntry Kotlin.Node)}
    (h : HaveRawValues descent context rawType before cases entries) (htext : ¬ IsTextual rawType)
    (hvalues : ∀ placed ∈ cases, ∀ value, placed.1.rawValue = some value →
      ∃ n, IsInteger descent context value n) (hnext : ∀ n, count? before = some n → next = n) :
    entries.map (fun entry => entry.args.map Kotlin.Node.integer?) =
        (rawIntegers next (cases.map Prod.fst)).map (fun n => [some n]) ↔
      KeepCount before (cases.map Prod.fst) := by
  induction h generalizing next with
  | nil => simp [rawIntegers, keepCount_nil]
  | @cons before placed rest entry others hfirst hrest ih =>
    obtain ⟨hplaced, hothers⟩ := List.forall_mem_cons.1 hvalues
    rw [List.map_cons, List.map_cons, keepCount_cons, rawIntegers, List.map_cons, List.cons_eq_cons]
    cases hvalue : placed.1.rawValue with
    | some value =>
      obtain ⟨n, hn⟩ := hplaced value hvalue
      obtain ⟨state, hargs⟩ := hfirst.given value hvalue
      have hafter : ∀ m, count? (before ++ [placed.1]) = some m → n + 1 = m := by
        intro m hm
        rw [count?_concat_of_some hvalue] at hm
        exact eq_of_integerAfter? hn.literal hm
      simp [hargs, hn.lowered, hn.literal, ih hothers hafter]
    | none =>
      have hargs := hfirst.counted hvalue htext
      cases hcount : count? before with
      | none => simp [hargs, hcount]
      | some n =>
        have hafter : ∀ m, count? (before ++ [placed.1]) = some m → n + 1 = m := by
          intro m hm
          rw [count?_concat_of_none hvalue, hcount] at hm
          exact Option.some.inj (Option.ite_none_right_eq_some.1 hm).2
        simp [hargs, hcount, hnext n hcount, integer?_integerLiteral, ih hothers hafter]

end Entries

/-! ## Classes -/

theorem enumClass_makes_rawValues (hraw : rawType? decl = some rawType) (range) :
    MakesClass context (enumClass descent decl range) range fun made =>
      made.kind = .enumeration ∧ made.params = [rawValueParam rawType] ∧
        HaveRawValues descent context rawType [] (placedCases decl.members) made.entries := by
  unfold enumClass
  rw [hraw]
  refine (entries_haveRawValues decl.name (fun _ => count?_nil.symm) _).bind ?_
  intro entries hentries
  exact .after fun _ => .after fun _ => .pure ⟨_, rfl, rfl, rfl, hentries⟩

theorem enumDecl_makes_rawValues
    (hform : enumForm ((context.types.enum? decl.name).getD decl) = .enumClass)
    (hraw : rawType? decl = some rawType) (range) :
    MakesClass context (enumDecl descent decl range) range fun made =>
      made.kind = .enumeration ∧ made.params = [rawValueParam rawType] ∧
        HaveRawValues descent context rawType [] (placedCases decl.members) made.entries := by
  refine (Returns.types context).bind ?_
  intro types htypes
  rw [htypes, hform]
  exact enumClass_makes_rawValues hraw range

/-- A raw value stands two layers below its enum. -/
theorem standsIn_of_rawValue (hc : node.construct = .typeDecl kind decl)
    (hplaced : placed ∈ placedCases decl.members) (hvalue : placed.1.rawValue = some value) :
    value.StandsIn .value node ∧ value.height + 2 ≤ node.height := by
  have hcase : (⟨.enumCase placed.1, placed.2⟩ : Node) ∈ node.construct.parts := by
    rw [hc]
    exact mem_of_mem_placedCases hplaced
  have hposition : (Swift.Role.value, value) ∈ (Swift.Construct.enumCase placed.1).positions := by
    simp [hvalue]
  have hbelow : value.StandsIn .value ⟨.enumCase placed.1, placed.2⟩ := .here hposition
  have hlow := hbelow.height_lt
  have hhigh := Node.height_lt_of_part hcase
  exact ⟨.deeper hcase hbelow, by omega⟩

/-- An integer literal is lowered to itself. -/
theorem isInteger_of_literal (hc : value.construct = .literal (.integer text))
    (hn : Text.integerValue? text.toList = some n) :
    IsInteger (descend (below + 1)) context value n := by
  constructor
  · simpa [literalValue?, hc] using hn
  · intro state
    change (((Expression.lower (descend below) value).run context).run state).1.integer? = some n
    simp only [Expression.lower, hc]
    exact hn

end Enum

/-! ## Items of the file -/

theorem yields_file {scene : Scene} (h : scene.frame.AllAllowed place .statement items) (range) :
    scene.Yields P place []
      (fun descent => do return [⟨.file (← descent.statements items), range⟩])
      (fun nodes => nodes) fun _ => ∀ item ∈ items, ∃ visit, P visit ∧ visit.node = item := by
  refine (yields_statements h).bind fun _ => .pure (.around (by simp) (by simp)) ?_
  rintro ⟨visits, rfl, hvisits, -⟩ item hitem
  obtain ⟨visit, hvisit, rfl⟩ := List.mem_map.1 hitem
  exact ⟨visit, (hvisits visit hvisit).2, rfl⟩

/-- A file asks for all of its items. -/
theorem exists_asks_of_file {place : Place} (hplace : place.Matches whole.state.surroundings)
    (hrole : whole.role = .statement) (hc : whole.node.construct = .file items) :
    ∀ item ∈ items, ∃ part, Asks context (descend height) whole part ∧ part.node = item := by
  have hitems :
      (Scene.ofVisit context height place whole).frame.AllAllowed place .statement items :=
    (@Scene.lowers_ofVisit context height place whole).all hc (by simp) fun _ => rfl
  obtain ⟨trace, htrace, hresult⟩ :=
    (yields_file (P := Asks context (descend height) whole) hitems whole.node.range).explained
      whole.state (Scene.admits_ofVisit hplace)
  apply hresult
  intro visit hvisit
  refine (asks_iff_of_explains (fun other => ?_) htrace visit).2 hvisit
  simp only [Descent.outcome, hrole, Descent.above, lowerStatement, hc]
  rfl

end Lowering

/-! ## Conversion -/

namespace Conversion

open Lowering DeclaredTypes

/-- Every item of the file is reached. -/
theorem exists_reaches_of_item (hc : (ofDump settings dump).swift.construct = .file items)
    (hitem : item ∈ items) :
    ∃ height place visit, Reaches settings dump height place visit ∧ visit.node = item := by
  let whole : Visit := ⟨.statement, (ofDump settings dump).swift,
    { diagnostics := ((Swift.Node.ofDump dump).run []).2 }⟩
  have hroot : Reaches settings dump whole.node.height {} whole := .root
  obtain ⟨below, hbelow⟩ := hroot.exists_succ
  rw [hbelow] at hroot
  obtain ⟨part, hasks, rfl⟩ : ∃ part,
      Asks (context settings dump) (descend below) whole part ∧ part.node = item :=
    exists_asks_of_file hroot.matches_surroundings rfl hc item hitem
  exact ⟨below, _, part, .part hroot hasks, rfl⟩

/-- The entries of an enumeration that is reached have their raw values. -/
theorem Reaches.becomes_enumeration (h : Reaches settings dump (height + 1) place visit)
    (hc : visit.node.construct = .typeDecl .enumType decl)
    (hform : enumForm (((ofTree (ofDump settings dump).swift).enum? decl.name).getD decl) =
      .enumClass)
    (hraw : Enum.rawType? decl = some rawType) :
    ∃ made, Becomes settings dump (height + 1) visit ⟨.classDef made, visit.node.range⟩ ∧
      made.kind = .enumeration ∧ made.params = [Enum.rawValueParam rawType] ∧
      Enum.HaveRawValues (descend height) (context settings dump) rawType []
        (Enum.placedCases decl.members) made.entries := by
  have hrole := h.role_eq_statement hc
  have hform :
      enumForm (((context settings dump).types.enum? decl.name).getD decl) = .enumClass := hform
  obtain ⟨made, hmade, hclass⟩ :=
    Enum.enumDecl_makes_rawValues hform hraw visit.node.range visit.state
  refine ⟨made, h.becomes ?_, hclass⟩
  rw [← hmade]
  exact outcome_typeDecl hrole hc

/-- An integer literal among the raw values of an enum that is reached keeps its value. -/
theorem Reaches.isInteger_rawValue (h : Reaches settings dump (height + 1) place visit)
    (hc : visit.node.construct = .typeDecl kind decl)
    (hplaced : placed ∈ Enum.placedCases decl.members) (hvalue : placed.1.rawValue = some value)
    (htext : value.construct = .literal (.integer text)) :
    ∃ n, Enum.IsInteger (descend height) (context settings dump) value n := by
  obtain ⟨hstands, hheight⟩ := Enum.standsIn_of_rawValue hc hplaced hvalue
  have hroot : value.StandsIn .value ((Swift.Node.ofDump dump).run []).1 := by
    rcases h.standsIn with rfl | hnode
    · exact hstands
    · exact hstands.trans hnode
  obtain ⟨n, hn⟩ := Swift.Node.denotesInteger_of_standsIn_ofDump hroot text htext
  have hle := h.height_le
  obtain ⟨below, rfl⟩ : ∃ below, height = below + 1 := ⟨height - 1, by omega⟩
  exact ⟨n, Enum.isInteger_of_literal htext hn⟩

/-- An enum with raw values that becomes an enumeration has an entry for each case. Every entry has
one argument except where a count is needed and lost. If all raw values that are given are integer
literals, the arguments denote the raw values exactly if no count is lost. -/
theorem ofDump_rawValues_kept_iff_counted (h : Reaches settings dump height place visit)
    (hc : visit.node.construct = .typeDecl .enumType decl)
    (hform : enumForm (((ofTree (ofDump settings dump).swift).enum? decl.name).getD decl) =
      .enumClass)
    (hraw : Enum.rawType? decl = some rawType) :
    ∃ made, Becomes settings dump height visit ⟨.classDef made, visit.node.range⟩ ∧
      made.kind = .enumeration ∧ made.params = [Enum.rawValueParam rawType] ∧
      made.entries.length = (casesOf decl).length ∧
      (∀ i case, (casesOf decl)[i]? = some case → ∃ entry, made.entries[i]? = some entry ∧
        entry.args.length = if case.rawValue = none ∧ ¬ Enum.IsTextual rawType ∧
          Enum.count? ((casesOf decl).take i) = none then 0 else 1) ∧
      (¬ Enum.IsTextual rawType →
        (∀ case ∈ casesOf decl, ∀ value, case.rawValue = some value →
          ∃ text, value.construct = .literal (.integer text)) →
        (made.entries.map (fun entry => entry.args.map Kotlin.Node.integer?) =
            (Enum.rawIntegers 0 (casesOf decl)).map (fun n => [some n]) ↔
          Enum.KeepCount [] (casesOf decl))) := by
  obtain ⟨below, rfl⟩ := h.exists_succ
  obtain ⟨made, hmade, hkind, hparams, hentries⟩ := h.becomes_enumeration hc hform hraw
  rw [← Enum.map_fst_placedCases]
  refine ⟨made, hmade, hkind, hparams, by simpa using hentries.length_eq, ?_, ?_⟩
  · intro i case hcase
    rw [List.getElem?_map] at hcase
    obtain ⟨placed, hplaced, rfl⟩ := Option.map_eq_some_iff.1 hcase
    obtain ⟨entry, hentry, hvalue⟩ := hentries.exists_entry hplaced
    exact ⟨entry, hentry, by simpa [List.map_take] using hvalue.length_args⟩
  · intro htext hliterals
    apply hentries.values_eq_iff htext
    · intro placed hplaced value hvalue
      obtain ⟨text, hliteral⟩ := hliterals placed.1 (List.mem_map_of_mem hplaced) value hvalue
      exact h.isInteger_rawValue hc hplaced hvalue hliteral
    · intro n hn
      rw [Enum.count?_nil] at hn
      exact Option.some.inj hn

/-- The enum `enum E: Int { case a, b = -3, c, d = 0x10 }`. -/
def countedCases : Dump.Node :=
  ⟨"source_file", [], [⟨"enum_decl", [("name", "E"), ("inherits", "Int")],
    [⟨"enum_element_decl", [("name", "a")], [], none⟩,
      ⟨"enum_element_decl", [("name", "b")],
        [⟨"integer_literal_expr", [("value", "-3")], [], none⟩], none⟩,
      ⟨"enum_element_decl", [("name", "c")], [], none⟩,
      ⟨"enum_element_decl", [("name", "d")],
        [⟨"integer_literal_expr", [("value", "0x10")], [], none⟩], none⟩], none⟩], none⟩

/-- Nothing counts on from the literal that is no decimal numeral, so all values are there. -/
theorem countedCases_keep_values : ∃ height place visit made,
    Reaches {} countedCases height place visit ∧
      Becomes {} countedCases height visit ⟨.classDef made, visit.node.range⟩ ∧
      made.entries.map (fun entry => entry.args.map Kotlin.Node.integer?) =
        [[some 0], [some (-3)], [some (-2)], [some 16]] := by
  let decl : Swift.TypeDecl Swift.Node :=
    { name := "E", inherits := ["Int"]
      members := [⟨.enumCase ⟨"a", [], none⟩, none⟩,
        ⟨.enumCase ⟨"b", [], some ⟨.literal (.integer "-3"), none⟩⟩, none⟩,
        ⟨.enumCase ⟨"c", [], none⟩, none⟩,
        ⟨.enumCase ⟨"d", [], some ⟨.literal (.integer "0x10"), none⟩⟩, none⟩] }
  have hswift : (ofDump {} countedCases).swift =
      ⟨.file [⟨.typeDecl .enumType decl, none⟩], none⟩ := by with_unfolding_all rfl
  obtain ⟨height, place, visit, h, hnode⟩ :=
    exists_reaches_of_item (congrArg Swift.Node.construct hswift) (List.mem_singleton_self _)
  have hc : visit.node.construct = .typeDecl .enumType decl := by rw [hnode]
  have hform :
      enumForm (((ofTree (ofDump {} countedCases).swift).enum? decl.name).getD decl) =
        .enumClass := by
    rw [hswift]
    with_unfolding_all rfl
  have hraw : Enum.rawType? decl = some "Int" := by decide
  obtain ⟨made, hmade, -, -, -, -, hvalues⟩ := ofDump_rawValues_kept_iff_counted h hc hform hraw
  have hcount : Enum.KeepCount [] (casesOf decl) := by
    have hgiven {value : Swift.Node} {P : Prop} : some value = none → P := fun h => by cases h
    apply Enum.keepCount_cons.2 ⟨fun _ => by decide, ?_⟩
    apply Enum.keepCount_cons.2 ⟨hgiven, ?_⟩
    apply Enum.keepCount_cons.2 ⟨fun _ => by decide, ?_⟩
    apply Enum.keepCount_cons.2 ⟨hgiven, ?_⟩
    exact Enum.keepCount_nil
  have hall := (hvalues (by decide) (by simp [decl, casesOf])).2 hcount
  exact ⟨height, place, visit, made, h, hmade, hall.trans (by decide)⟩

/-- The enum `enum E: Int { case a = 0x10, b }`. -/
def hexadecimalCase : Dump.Node :=
  ⟨"source_file", [], [⟨"enum_decl", [("name", "E"), ("inherits", "Int")],
    [⟨"enum_element_decl", [("name", "a")],
        [⟨"integer_literal_expr", [("value", "0x10")], [], none⟩], none⟩,
      ⟨"enum_element_decl", [("name", "b")], [], none⟩], none⟩], none⟩

/-- The entry behind the hexadecimal literal has no value. -/
theorem raw_value_missing :
    (ofDump {} hexadecimalCase).kotlin =
        ⟨.file [⟨.classDef
          { name := "E", kind := .enumeration
            params := [{ name := "rawValue", ty := .named "Int" [], binding := some .val }]
            entries := [⟨"A", [.literal (.int "0x10") none]⟩, ⟨"B", []⟩] }, none⟩], none⟩ ∧
      (ofDump {} hexadecimalCase).diagnostics = [] := by
  with_unfolding_all exact ⟨rfl, rfl⟩

end Conversion

end SwiftToKotlin
