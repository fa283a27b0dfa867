import Mathlib.Data.List.Nodup
import SwiftToKotlin.Proofs.Toml.Tables
import SwiftToKotlin.Workspace.Layers

/-!
# Settings in layers

Each setting is decided by the last layer that has it, whatever else the layers say, as long as they
are valid one by one and have tables for sections. A layer that is not valid is told, the first one
if there are several.
-/

namespace SwiftToKotlin

open Toml (Value Table overlay)

namespace Settings

/-! ## Settings in tables -/

/-- Where a setting stands, how its value is read, and what it is where it is left out. A table is
no value of a setting. -/
structure Key (α : Type) where
  heading : String
  name : String
  read : Value → Option α
  standard : α
  read_table : ∀ entries, read (.table entries) = none

namespace Key

def indentWidth : Key Nat :=
  ⟨"output", "indent_width", natural, 4, fun _ => rfl⟩

def droppedImports : Key (List String) :=
  ⟨"translate", "dropped_imports", texts, ["Foundation", "Swift", "UIKit"], fun _ => rfl⟩

def horizontalLimit : Key Nat :=
  ⟨"tree", "horizontal_limit", natural, 100, fun _ => rfl⟩

variable {α : Type} (key : Key α)

/-- If there is a section for the setting then it is a table. -/
def InTable (table : Table) : Bool :=
  (table.get? key.heading).all Value.isTable

/-- The value of the setting in the table of its section. -/
def value? (table : Table) : Option Value :=
  Value.inner key.name (table.get? key.heading)

/-- The setting with a value, or left out. -/
def reading (value : Option Value) : Option α :=
  value.elim (some key.standard) key.read

/-- The setting in a table. -/
def of (table : Table) : Option α :=
  setting table key.heading key.name key.read key.standard

theorem of_eq_reading (h : key.InTable table) : key.of table = key.reading (key.value? table) := by
  rw [InTable] at h
  rw [of, setting, value?]
  cases hvalue : table.get? key.heading with
  | none => rfl
  | some value =>
    rw [hvalue] at h
    obtain ⟨entries, rfl⟩ := Value.exists_of_isTable h
    simp only [inSection, Value.inner]
    cases Table.get? entries key.name <;> rfl

/-- The setting is left out of a table, or has a value in its section that can be read. -/
structure Valid (table : Table) : Prop where
  inTable : key.InTable table
  readable : ∀ value ∈ key.value? table, (key.read value).isSome

variable {key}

theorem Valid.of_isSome (hin : key.InTable table) (h : (key.of table).isSome) :
    key.Valid table := by
  refine ⟨hin, fun value hvalue => ?_⟩
  rwa [key.of_eq_reading hin, Option.mem_def.1 hvalue] at h

/-- The sections of tables over each other are tables, and an upper value replaces the lower one. -/
theorem Valid.overlay (h : key.Valid above) (habove : (Value.table above).Distinct)
    (hbelow : key.InTable below) :
    key.InTable (overlay below above) ∧
      key.value? (overlay below above) = (key.value? above).or (key.value? below) := by
  rw [InTable, value?, Toml.get?_overlay below (Value.distinct_table_iff.1 habove).1]
  obtain ⟨hin, hinner⟩ := Value.inner_joined hbelow h.inTable
    (fun _ hvalue => habove.get? hvalue) key.name
  refine ⟨hin, hinner.trans (Value.joined_eq_or _ fun entries hentries => ?_)⟩
  have hread := h.readable _ hentries
  rw [key.read_table] at hread
  cases hread

end Key

theorem ofTable_eq_some_iff :
    ofTable table = some settings ↔
      Key.indentWidth.of table = some settings.indentWidth ∧
      Key.droppedImports.of table = some settings.droppedImports ∧
      Key.horizontalLimit.of table = some settings.horizontalLimit := by
  obtain ⟨indentWidth, droppedImports, horizontalLimit⟩ := settings
  simp only [ofTable, Option.bind_eq_bind, Option.bind_eq_some_iff, Option.pure_def,
    Option.some.injEq, Settings.mk.injEq]
  constructor
  · rintro ⟨first, hfirst, second, hsecond, third, hthird, rfl, rfl, rfl⟩
    exact ⟨hfirst, hsecond, hthird⟩
  · rintro ⟨hfirst, hsecond, hthird⟩
    exact ⟨_, hfirst, _, hsecond, _, hthird, rfl, rfl, rfl⟩

end Settings

namespace Workspace

open Settings (Key)

/-! ## Single layers -/

/-- The table in a layer that can be read and parsed. -/
def Disk.table? (disk : Disk) (path : String) : Option Table :=
  (disk.read path).toOption.bind Toml.parse

/-- A layer that is there but cannot be read, parsed or validated. -/
abbrev Disk.IsFaulty (disk : Disk) (path : String) : Prop :=
  disk.read path ≠ .error .missing ∧ (disk.table? path).bind Settings.ofTable = none

/-- A layer that is absent, or a document with valid settings whose sections are tables. -/
abbrev Disk.IsLayer (disk : Disk) (path : String) : Prop :=
  disk.read path = .error .missing ∨
    ∃ table ∈ disk.table? path, (Settings.ofTable table).isSome ∧ Key.indentWidth.InTable table ∧
      Key.droppedImports.InTable table ∧ Key.horizontalLimit.InTable table

/-- The file that an error is about. -/
def SettingsError.path : SettingsError → String
  | unreadable path _ => path
  | invalid path => path

variable {α : Type} {disk : Disk} {path : String} {paths : List String}

theorem layer_of_read (h : disk.read path = .ok text) :
    layer disk path = if ((disk.table? path).bind Settings.ofTable).isSome then
      .ok (disk.table? path) else .error (.invalid path) := by
  simp only [layer, Disk.table?, h, Except.toOption, Option.bind_some]
  cases Toml.parse text <;> rfl

theorem layer_of_isFaulty (h : disk.IsFaulty path) :
    ∃ error, layer disk path = .error error ∧ error.path = path := by
  cases hread : disk.read path with
  | error error =>
    refine ⟨.unreadable path error, ?_, rfl⟩
    rw [layer, hread]
    cases error with
    | missing => exact absurd hread h.1
    | _ => rfl
  | ok text => exact ⟨.invalid path, by simp [layer_of_read hread, h.2], rfl⟩

theorem layer_of_not_isFaulty (h : ¬ disk.IsFaulty path) :
    layer disk path = .ok (disk.table? path) := by
  by_cases hmissing : disk.read path = .error .missing
  · simp [layer, Disk.table?, hmissing, Except.toOption]
  · have hsome := Option.isSome_iff_ne_none.2 fun hnone => h ⟨hmissing, hnone⟩
    cases hread : disk.read path with
    | error error => simp [Disk.table?, hread, Except.toOption] at hsome
    | ok text => rw [layer_of_read hread, if_pos hsome]

theorem Disk.IsLayer.not_isFaulty (h : disk.IsLayer path) : ¬ disk.IsFaulty path := by
  rintro ⟨hthere, hinvalid⟩
  obtain ⟨table, htable, hsome, -⟩ := h.resolve_left hthere
  rw [Option.mem_def.1 htable, Option.bind_some] at hinvalid
  rw [hinvalid] at hsome
  cases hsome

theorem Disk.IsLayer.valid (h : disk.IsLayer path) {table : Table}
    (htable : table ∈ disk.table? path) :
    Key.indentWidth.Valid table ∧ Key.droppedImports.Valid table ∧
      Key.horizontalLimit.Valid table := by
  rcases h with hmissing | ⟨own, hown, hsome, hwidth, himports, hlimit⟩
  · rw [table?, hmissing] at htable
    cases htable
  · obtain rfl := Option.mem_unique htable hown
    obtain ⟨settings, hsettings⟩ := Option.isSome_iff_exists.1 hsome
    obtain ⟨hfirst, hsecond, hthird⟩ := Settings.ofTable_eq_some_iff.1 hsettings
    exact ⟨.of_isSome hwidth (Option.isSome_of_eq_some hfirst),
      .of_isSome himports (Option.isSome_of_eq_some hsecond),
      .of_isSome hlimit (Option.isSome_of_eq_some hthird)⟩

/-! ## Layers over each other -/

/-- The tables so far under the one of a further layer. -/
def Disk.under (disk : Disk) (joined : Table) (path : String) : Table :=
  (disk.table? path).elim joined (overlay joined)

theorem joinLayers_append (h : ∀ path ∈ before, ¬ disk.IsFaulty path) (after) (joined : Table) :
    joinLayers disk (before ++ after) joined =
      joinLayers disk after (before.foldl disk.under joined) := by
  induction before generalizing joined with
  | nil => rfl
  | cons path before ih =>
    rw [List.forall_mem_cons] at h
    rw [List.foldl_cons, ← ih h.2, List.cons_append, joinLayers, layer_of_not_isFaulty h.1,
      Disk.under]
    cases disk.table? path <;> rfl

/-- The value of a setting in the last layer that has one. -/
def Disk.lastValue? (disk : Disk) (paths : List String) (key : Key α) : Option Value :=
  paths.reverse.findSome? fun path => (disk.table? path).bind key.value?

theorem value?_foldl_under {key : Key α}
    (h : ∀ path ∈ paths, ∀ table ∈ disk.table? path, key.Valid table)
    (hjoined : key.InTable joined) :
    key.InTable (paths.foldl disk.under joined) ∧
      key.value? (paths.foldl disk.under joined) =
        (disk.lastValue? paths key).or (key.value? joined) := by
  induction paths generalizing joined with
  | nil => exact ⟨hjoined, rfl⟩
  | cons path paths ih =>
    rw [List.forall_mem_cons] at h
    have hlast : disk.lastValue? (path :: paths) key =
        (disk.lastValue? paths key).or ((disk.table? path).bind key.value?) := by
      simp [Disk.lastValue?]
    rw [hlast, Option.or_assoc, List.foldl_cons, Disk.under]
    cases htable : disk.table? path with
    | none => simpa using ih h.2 hjoined
    | some table =>
      obtain ⟨text, -, hparse⟩ := Option.bind_eq_some_iff.1 htable
      obtain ⟨hin, hvalue⟩ := (h.1 table htable).overlay (Toml.distinct_of_parse hparse) hjoined
      rw [Option.bind_some, ← hvalue]
      exact ih h.2 hin

/-- A setting is what the last layer says that has it, or else the standard. -/
def Disk.decided (disk : Disk) (paths : List String) (key : Key α) : Option α :=
  key.reading (disk.lastValue? paths key)

theorem of_foldl_under {key : Key α}
    (h : ∀ path ∈ paths, ∀ table ∈ disk.table? path, key.Valid table) :
    ∃ value, disk.decided paths key = some value ∧
      key.of (paths.foldl disk.under []) = some value := by
  obtain ⟨hin, hvalue⟩ := value?_foldl_under h (show key.InTable [] from rfl)
  rw [key.of_eq_reading hin, hvalue, show key.value? [] = none from rfl, Option.or_none,
    ← Disk.decided]
  refine (exists_congr fun _ => and_self_iff).2 ?_
  rw [Disk.decided]
  cases hlast : disk.lastValue? paths key with
  | none => exact ⟨key.standard, rfl⟩
  | some value =>
    obtain ⟨path, hpath, hfound⟩ := List.exists_of_findSome?_eq_some hlast
    obtain ⟨table, htable, hown⟩ := Option.bind_eq_some_iff.1 hfound
    exact Option.isSome_iff_exists.1
      ((h path (List.mem_reverse.1 hpath) table htable).readable value hown)

def Disk.ofSettings : Disk :=
  (((Disk.empty 0).add ["user.toml"]
    (.file (.text "[output]\nindent_width = 8\n\n[tree]\nhorizontal_limit = 40\n") 1) 1).add
    ["project.toml"] (.file (.text "[output]\nindent_width = 2\n") 1) 1).add
    ["faulty.toml"] (.file (.text "[tree]\nhorizontal_limit = -1\n") 1) 1

end Workspace

end SwiftToKotlin
