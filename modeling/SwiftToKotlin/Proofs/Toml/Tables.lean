import SwiftToKotlin.Toml.Document

/-!
# Keys of tables

A document is read into tables with distinct keys: a key is given one value only, and a table is
extended by keys that it does not have. So the value at a key is the only one, and in a table over
another one each key has the value of the upper table, joined with that of the lower table where both
are tables.
-/

namespace SwiftToKotlin.Toml

/-! ## Tables over each other -/

theorem Table.get?_set_of_ne (table : Table) {key : String} (value : Value) (h : other ≠ key) :
    (table.set key value).get? other = table.get? other := by
  have hkey : (other == key) = false := by simpa using h
  rw [get?, set, get?, List.lookup_cons, hkey]
  induction table with
  | nil => rfl
  | cons entry rest ih =>
    obtain ⟨own, item⟩ := entry
    by_cases hown : own = key
    · subst hown
      simpa [List.lookup_cons, hkey] using ih
    · by_cases hother : other = own
      · subst hother
        simp [hown]
      · have hne : (other == own) = false := by simpa using hother
        simpa [hown, List.lookup_cons, hne] using ih

theorem Table.get?_eq_none_of_notMem {table : Table} {key : String}
    (h : key ∉ table.map Prod.fst) : table.get? key = none := by
  rw [get?, List.lookup_eq_none_iff]
  intro entry hentry
  rw [bne_iff_ne]
  rintro rfl
  exact h (List.mem_map_of_mem hentry)

theorem Table.get?_cons_self (key : String) (value : Value) (rest : Table) :
    Table.get? ((key, value) :: rest) key = some value :=
  List.lookup_cons_self

theorem Table.get?_cons_of_ne {key : String} (h : key ≠ own) (value : Value) (rest : Table) :
    Table.get? ((own, value) :: rest) key = rest.get? key := by
  have hne : (key == own) = false := by simpa using h
  rw [get?, List.lookup_cons, hne, get?]

/-- The value at a key of which a lower and an upper table tell what it is. -/
def Value.joined : Option Value → Option Value → Option Value
  | below, none => below
  | none, some above => some above
  | some below, some above => some (below.under above)

@[simp] theorem Value.joined_none (below : Option Value) : joined below none = below := by
  cases below <;> rfl

@[simp] theorem Value.none_joined (above) : joined none above = above := by
  cases above <;> rfl

/-- A value that is no table replaces the one below it. -/
theorem Value.joined_eq_or (below : Option Value) (h : ∀ entries, above ≠ some (.table entries)) :
    joined below above = above.or below := by
  cases above with
  | none => simp
  | some above =>
    cases below with
    | none => rfl
    | some below =>
      have hunder : below.under above = above := by
        cases above with
        | table entries => exact absurd rfl (h entries)
        | _ => cases below <;> simp [under]
      rw [joined, hunder, Option.some_or]

def Value.isTable : Value → Bool
  | .table _ => true
  | _ => false

theorem Value.exists_of_isTable {value : Value} (h : value.isTable) :
    ∃ entries, value = .table entries := by
  cases value with
  | table entries => exact ⟨entries, rfl⟩
  | _ => cases h

/-- The value at a key in a value that is a table. -/
def Value.inner (name : String) : Option Value → Option Value
  | some (.table entries) => Table.get? entries name
  | _ => none

theorem overlay_cons (below : Table) (key : String) (above : Value) (rest : Table) :
    ∃ value, overlay below ((key, above) :: rest) = overlay (below.set key value) rest ∧
      Value.joined (below.get? key) (some above) = some value := by
  rw [overlay]
  cases below.get? key with
  | none => exact ⟨above, rfl, rfl⟩
  | some value => exact ⟨value.under above, rfl, rfl⟩

theorem get?_overlay (below : Table) (h : (above.map Prod.fst).Nodup) (key : String) :
    (overlay below above).get? key = Value.joined (below.get? key) (above.get? key) := by
  induction above generalizing below with
  | nil => simp [overlay, Table.get?]
  | cons entry rest ih =>
    obtain ⟨own, value⟩ := entry
    rw [List.map_cons, List.nodup_cons] at h
    obtain ⟨joined, heq, hjoined⟩ := overlay_cons below own value rest
    rw [heq, ih _ h.2]
    by_cases hkey : key = own
    · subst hkey
      rw [Table.get?_eq_none_of_notMem h.1, Table.get?_set_self, Table.get?_cons_self, hjoined]
      rfl
    · rw [Table.get?_set_of_ne _ _ hkey, Table.get?_cons_of_ne hkey]

/-! ## Distinct keys -/

/-- The keys of a table are distinct, and so are those of the tables in it. Arrays may hold
anything. -/
inductive Value.Distinct : Value → Prop
  | table (hkeys : (entries.map Prod.fst).Nodup)
    (hvalues : ∀ entry ∈ entries, entry.2.Distinct) : Distinct (.table entries)
  | other {value : Value} (h : value.isTable = false) : Distinct value

theorem Value.distinct_table_iff {table : Table} :
    (Value.table table).Distinct ↔
      (table.map Prod.fst).Nodup ∧ ∀ entry ∈ table, entry.2.Distinct := by
  refine ⟨fun h => ?_, fun h => .table h.1 h.2⟩
  cases h with
  | table hkeys hvalues => exact ⟨hkeys, hvalues⟩
  | other h => cases h

theorem Value.Distinct.get? {table : Table} {key : String} {value : Value}
    (h : (Value.table table).Distinct) (hvalue : table.get? key = some value) :
    value.Distinct := by
  obtain ⟨before, after, rfl, -⟩ := List.lookup_eq_some_iff.1 hvalue
  exact (distinct_table_iff.1 h).2 (key, value) (by simp)

theorem Value.inner_joined (hbelow : below.all isTable) (h : above.all isTable)
    (hdistinct : ∀ value ∈ above, value.Distinct) (name : String) :
    (joined below above).all isTable ∧
      inner name (joined below above) = joined (inner name below) (inner name above) := by
  cases above with
  | none => simpa [inner] using hbelow
  | some above =>
    obtain ⟨upper, rfl⟩ := exists_of_isTable h
    cases below with
    | none => simpa [inner] using h
    | some below =>
      obtain ⟨lower, rfl⟩ := exists_of_isTable hbelow
      exact ⟨rfl, get?_overlay lower (distinct_table_iff.1 (hdistinct _ rfl)).1 name⟩

theorem finishedEntries_eq_map (draft : Draft) :
    finishedEntries draft = draft.map fun entry => (entry.1, entry.2.finished) := by
  induction draft with
  | nil => rfl
  | cons entry rest ih => rw [finishedEntries, ih, List.map_cons]

/-- As it is for the value that the item becomes. -/
def Item.Distinct (item : Item) : Prop :=
  item.finished.Distinct

def Draft.Distinct (draft : Draft) : Prop :=
  (Value.table (finishedEntries draft)).Distinct

theorem Draft.distinct_iff {draft : Draft} :
    draft.Distinct ↔ (draft.map Prod.fst).Nodup ∧ ∀ entry ∈ draft, entry.2.Distinct := by
  rw [Distinct, Value.distinct_table_iff, finishedEntries_eq_map, List.map_map, List.forall_mem_map]
  rfl

theorem Item.distinct_table_iff {draft : Draft} :
    (Item.table origin draft).Distinct ↔ draft.Distinct := by
  rw [Item.Distinct, Item.finished, Draft.Distinct]

theorem Item.distinct_tables (elements : List Draft) : (Item.tables elements).Distinct := by
  exact .other rfl

/-! ## Building drafts -/

namespace Draft

variable {draft : Draft}

theorem Distinct.nil : Distinct [] :=
  distinct_iff.2 ⟨List.nodup_nil, List.forall_mem_nil _⟩

theorem Distinct.alter {key : String} (h : draft.Distinct)
    (hchange : ∀ old item, (∀ own ∈ old, own.Distinct) → change old = some item → item.Distinct)
    (halter : draft.alter key change = some changed) : changed.Distinct := by
  obtain ⟨item, hitem, rfl⟩ := Option.map_eq_some_iff.1 halter
  rw [distinct_iff] at h ⊢
  rw [List.map_cons, List.nodup_cons, List.forall_mem_cons]
  refine ⟨⟨by simp, h.1.sublist (List.filter_sublist.map Prod.fst)⟩,
    hchange _ item (fun own hown => ?_) hitem, fun entry hentry => ?_⟩
  · obtain ⟨before, after, rfl, -⟩ := List.lookup_eq_some_iff.1 hown
    exact h.2 (key, own) (by simp)
  · exact h.2 entry (List.mem_filter.1 hentry).1

theorem Distinct.within
    (hchange : ∀ here draft changed, Distinct draft → change here draft = some changed →
      Distinct changed) (h : draft.Distinct)
    (hwithin : within origin change path here draft = some changed) : changed.Distinct := by
  induction path generalizing here draft changed with
  | nil => exact hchange here draft changed h hwithin
  | cons key path ih =>
    refine h.alter (fun old item hold hitem => ?_) hwithin
    rcases old with _ | (value | ⟨old, entries⟩ | elements)
    · obtain ⟨inner, hinner, rfl⟩ := Option.map_eq_some_iff.1 hitem
      exact Item.distinct_table_iff.2 (ih .nil hinner)
    · cases hitem
    · obtain ⟨-, hitem⟩ := Option.ite_none_left_eq_some.1 hitem
      obtain ⟨inner, hinner, rfl⟩ := Option.map_eq_some_iff.1 hitem
      exact Item.distinct_table_iff.2 (ih (Item.distinct_table_iff.1 (hold _ rfl)) hinner)
    · obtain ⟨last, -, hlast⟩ := Option.bind_eq_some_iff.1 hitem
      obtain ⟨inner, -, hinner⟩ := Option.bind_eq_some_iff.1 hlast
      cases hinner
      exact Item.distinct_tables _

theorem Distinct.addPair {value : Value} (h : draft.Distinct) (hvalue : value.Distinct)
    (hadd : draft.addPair path value = some changed) :
    changed.Distinct := by
  obtain ⟨key, -, hadd⟩ := Option.bind_eq_some_iff.1 hadd
  refine h.within (fun here draft changed hdraft hchanged => ?_) hadd
  obtain ⟨-, hchanged⟩ := Option.ite_none_left_eq_some.1 hchanged
  refine hdraft.alter (fun old item _ hitem => ?_) hchanged
  cases old with
  | none =>
    cases hitem
    exact hvalue
  | some => cases hitem

theorem distinct_openTable (hold : ∀ own ∈ old, own.Distinct) (h : openTable old = some item) :
    item.Distinct := by
  rcases old with _ | (value | ⟨origin, entries⟩ | elements)
  · cases h
    exact Item.distinct_table_iff.2 .nil
  · cases h
  · cases origin with
    | implied =>
      cases h
      exact Item.distinct_table_iff.2 (Item.distinct_table_iff.1 (hold _ rfl))
    | declared => cases h
    | dotted => cases h
  · cases h

theorem distinct_openElement (h : openElement old = some item) : item.Distinct := by
  rcases old with _ | (value | ⟨origin, entries⟩ | elements)
  · cases h
    exact Item.distinct_tables _
  · cases h
  · cases h
  · cases h
    exact Item.distinct_tables _

theorem Distinct.header (h : draft.Distinct)
    (hheader : draft.header isElement path = some changed) : changed.Distinct := by
  obtain ⟨key, -, hheader⟩ := Option.bind_eq_some_iff.1 hheader
  refine h.within (fun here draft changed hdraft hchanged => ?_) hheader
  refine hdraft.alter (fun old item hold hitem => ?_) hchanged
  cases isElement with
  | true => exact distinct_openElement hitem
  | false => exact distinct_openTable hold hitem

end Draft

/-! ## Reading values -/

namespace Reader

variable {α β : Type} {Q : β → Prop}

/-- What the reader gives is as stated, whatever it reads. -/
def Gives (reader : Reader α) (P : α → Prop) : Prop :=
  ∀ text value rest, StateT.run reader text = some (value, rest) → P value

namespace Gives

theorem of_forall {reader : Reader α} (h : ∀ value, P value) : reader.Gives P :=
  fun _ value _ _ => h value

theorem pure {value : α} (h : P value) : Gives (Pure.pure value) P := by
  intro text found rest hrun
  cases hrun
  exact h

theorem lift (h : ∀ value ∈ found, P value) : Gives (StateT.lift found) P := by
  intro text value rest hrun
  obtain ⟨own, hown, heq⟩ := Option.bind_eq_some_iff.1 hrun
  cases heq
  exact h value hown

theorem bind (h : reader.Gives P) (hnext : ∀ value, P value → (next value).Gives Q) :
    Gives (reader >>= next) Q := by
  intro text value rest hrun
  obtain ⟨⟨first, middle⟩, hfirst, hrest⟩ := Option.bind_eq_some_iff.1 hrun
  exact hnext first (h text first middle hfirst) middle value rest hrest

/-- What is read before does not matter. -/
theorem last (h : ∀ value, (next value).Gives Q) : Gives (reader >>= next) Q :=
  (of_forall fun _ => trivial).bind fun value (_ : True) => h value

theorem map {f : α → β} (h : reader.Gives fun value => Q (f value)) : Gives (f <$> reader) Q := by
  exact h.bind fun _ hvalue => .pure hvalue

theorem orElse (h : first.Gives P) (hother : other.Gives P) :
    Gives (first <|> other) P := by
  intro text value rest hrun
  change (StateT.run first text <|> StateT.run other text) = some (value, rest) at hrun
  cases hfirst : StateT.run first text with
  | some found =>
    rw [hfirst] at hrun
    cases hrun
    exact h text value rest hfirst
  | none =>
    rw [hfirst] at hrun
    exact hother text value rest hrun

theorem optional (h : reader.Gives P) :
    Gives (optional reader) fun found => ∀ value ∈ found, P value := by
  refine orElse (map fun text value rest hrun own hown => ?_) (pure fun _ hown => by cases hown)
  cases hown
  exact h text value rest hrun

theorem upTo (h : reader.Gives P) (n : Nat) :
    Gives (upTo reader n) fun items => ∀ item ∈ items, P item := by
  induction n with
  | zero => exact .pure (List.forall_mem_nil _)
  | succ n ih =>
    refine h.optional.bind fun found hfound => ?_
    cases found with
    | none => exact .pure (List.forall_mem_nil _)
    | some first =>
      refine ih.bind fun items hitems => .pure ?_
      exact List.forall_mem_cons.2 ⟨hfound first rfl, hitems⟩

theorem many (h : reader.Gives P) : Gives (many reader) fun items => ∀ item ∈ items, P item :=
  .last fun text => h.upTo text.length

theorem separated (h : reader.Gives P) :
    Gives (separated separator reader) fun items => ∀ item ∈ items, P item := by
  refine h.bind fun first hfirst => ?_
  have hrest : Gives (char separator *> reader) P := by
    exact .last fun _ => h
  exact hrest.many.bind fun items hitems => .pure (List.forall_mem_cons.2 ⟨hfirst, hitems⟩)

end Gives

end Reader

open Reader (Gives)

theorem gives_checkedInteger (n : Int) : Gives (checkedInteger n) Value.Distinct :=
  .last fun _ => .pure (.other rfl)

theorem gives_scalar : Gives scalar Value.Distinct := by
  have hinteger : Gives integer Value.Distinct := by
    have hmarked (mark : String) (radix : Nat) : Gives (integerOf mark radix) Value.Distinct :=
      .last fun _ => .last fun _ => gives_checkedInteger _
    have hdecimal : Gives decimalInteger Value.Distinct :=
      .last fun _ => .last fun _ => gives_checkedInteger _
    exact (hmarked _ _).orElse ((hmarked _ _).orElse ((hmarked _ _).orElse hdecimal))
  have hword (text : String) (value : Bool) :
      Gives (Reader.word text *> pure (.boolean value)) Value.Distinct := by
    exact .last fun _ => .pure (.other rfl)
  refine .orElse ?_ (.orElse ?_ (.orElse ?_ (.orElse ?_ hinteger)))
  · exact .map (.of_forall fun _ => .other rfl)
  · exact (hword _ _).orElse (hword _ _)
  · exact .map (.of_forall fun _ => .other rfl)
  · exact .map (.of_forall fun _ => .other rfl)

theorem gives_array (value) : Gives (array value) Value.Distinct := by
  refine .last fun _ => .last fun _ => .last fun items => ?_
  have hend : Gives (do Reader.gap; Reader.char ']'; return Value.array (items.getD []))
      Value.Distinct :=
    .last fun _ => .last fun _ => .pure (.other rfl)
  cases items.isSome with
  | true => exact .last fun _ => hend
  | false => exact hend

theorem gives_pair {value : Reader Value} (h : Gives value Value.Distinct) :
    Gives (pair value) fun entry => entry.2.Distinct :=
  .last fun _ => .last fun _ => .last fun _ => h.bind fun _ hvalue => .pure hvalue

theorem Draft.Distinct.foldlM
    (hadd : ∀ draft entry changed, Draft.Distinct draft → entry.2.Distinct →
      add draft entry = some changed → changed.Distinct) {entries : List (List String × Value)}
    (hentries : ∀ entry ∈ entries, entry.2.Distinct) (h : draft.Distinct)
    (hfold : entries.foldlM add draft = some changed) :
    changed.Distinct := by
  induction entries generalizing draft with
  | nil =>
    cases hfold
    exact h
  | cons entry rest ih =>
    rw [List.forall_mem_cons] at hentries
    obtain ⟨next, hnext, hrest⟩ := Option.bind_eq_some_iff.1 hfold
    exact ih hentries.2 (hadd draft entry next h hentries.1 hnext) hrest

theorem gives_inlineTable {value : Reader Value} (h : Gives value Value.Distinct) :
    Gives (inlineTable value) Value.Distinct := by
  have hpair : Gives (pair value <* Reader.blanks) fun entry => entry.2.Distinct := by
    exact (gives_pair h).bind fun _ hentry => .last fun _ => .pure hentry
  refine .last fun _ => .last fun _ => hpair.separated.optional.bind fun entries hentries => ?_
  refine .last fun _ => .last fun _ => .bind (.lift fun draft hdraft => ?_) fun draft hdraft =>
    .pure hdraft
  refine Draft.Distinct.nil.foldlM (fun draft entry changed hold hentry hadd => ?_) ?_ hdraft
  · exact hold.addPair hentry hadd
  · cases entries with
    | none => exact List.forall_mem_nil _
    | some list => exact hentries list rfl

theorem gives_nestedValue (depth : Nat) : Gives (nestedValue depth) Value.Distinct := by
  induction depth with
  | zero => exact gives_scalar
  | succ depth ih => exact (gives_array _).orElse ((gives_inlineTable ih).orElse gives_scalar)

/-! ## Reading documents -/

def Line.Distinct : Line → Prop
  | .pair _ value => value.Distinct
  | .header _ _ => True
  | .blank => True

theorem gives_line : Gives line Line.Distinct := by
  have hheader : Gives headerLine Line.Distinct := by
    refine .last fun _ => .last fun second => .last fun path => .last fun _ => ?_
    have hend : Gives (do Reader.restOfLine; return Line.header second.isSome path) Line.Distinct :=
      .last fun _ => .pure trivial
    cases second with
    | none => exact hend
    | some => exact .last fun _ => hend
  have hpair : Gives pairLine Line.Distinct :=
    (gives_pair (gives_nestedValue 79)).bind fun _ hentry => .last fun _ => .pure hentry
  refine .last fun _ => .last fun first => ?_
  split
  · exact .last fun _ => .last fun _ => .pure trivial
  · exact .last fun _ => .pure trivial
  · exact .last fun _ => .pure trivial
  · exact hheader
  · exact hpair

theorem gives_lines : Gives lines fun lines => ∀ line ∈ lines, line.Distinct :=
  .last fun _ => gives_line.many.bind fun _ hlines => .last fun _ => .last fun _ => .pure hlines

theorem Draft.Distinct.build {lines : List Line} (hlines : ∀ line ∈ lines, line.Distinct)
    (h : draft.Distinct) (hbuild : build lines here draft = some changed) :
    changed.Distinct := by
  induction lines generalizing here draft with
  | nil =>
    cases hbuild
    exact h
  | cons line rest ih =>
    rw [List.forall_mem_cons] at hlines
    cases line with
    | blank => exact ih hlines.2 h hbuild
    | header isElement path =>
      obtain ⟨next, hnext, hrest⟩ := Option.bind_eq_some_iff.1 hbuild
      exact ih hlines.2 (h.header hnext) hrest
    | pair path value =>
      obtain ⟨next, hnext, hrest⟩ := Option.bind_eq_some_iff.1 hbuild
      refine ih hlines.2 (h.within (fun _ inner changed hinner hadd => ?_) hnext) hrest
      exact hinner.addPair hlines.1 hadd

/-- The tables of a document have distinct keys. -/
theorem distinct_of_parse (h : parse text = some table) : (Value.table table).Distinct := by
  obtain ⟨⟨lines, rest⟩, hlines, hbuild⟩ := Option.bind_eq_some_iff.1 h
  obtain ⟨draft, hdraft, heq⟩ := Option.bind_eq_some_iff.1 hbuild
  cases heq
  exact Draft.Distinct.nil.build (gives_lines _ lines rest hlines) hdraft

end SwiftToKotlin.Toml
