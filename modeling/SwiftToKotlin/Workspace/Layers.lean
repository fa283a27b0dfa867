import SwiftToKotlin.Settings
import SwiftToKotlin.Toml.Document
import SwiftToKotlin.Workspace.Disk

/-! # Settings from files

Settings come in layers: files that may leave settings out, or be missing. Layers are joined key by
key, and the last layer that has a setting decides it.
-/

namespace SwiftToKotlin

open Toml (Value Table)

namespace Settings

/-! ## The form of settings -/

def natural : Value → Option Nat
  | .integer n => if 0 ≤ n then some n.toNat else none
  | _ => none

/-- A text. A date stands for its text. -/
def text : Value → Option String
  | .string text => some text
  | .date text => some text
  | _ => none

def texts : Value → Option (List String)
  | .array items => items.mapM text
  | _ => none

/-- The setting in a section. A section may also list its settings in place of naming them. -/
def inSection {α : Type} (name : String) (read : Value → Option α) (fallback : α) :
    Value → Option α
  | .table entries =>
    match Table.get? entries name with
    | some value => read value
    | none => some fallback
  | .array [] => some fallback
  | .array [value] => read value
  | _ => none

/-- The setting `name` of a section, or `fallback` if there is none. -/
def setting {α : Type} (table : Table) (heading name : String) (read : Value → Option α)
    (fallback : α) : Option α :=
  match table.get? heading with
  | some value => inSection name read fallback value
  | none => some fallback

/-- The settings in a table, unless one of them has the wrong form. -/
def ofTable (table : Table) : Option Settings := do
  let standard : Settings := {}
  let indentWidth ← setting table "output" "indent_width" natural standard.indentWidth
  let droppedImports ←
    setting table "translate" "dropped_imports" texts standard.droppedImports
  let horizontalLimit ← setting table "tree" "horizontal_limit" natural standard.horizontalLimit
  return { indentWidth, droppedImports, horizontalLimit }

end Settings

namespace Workspace

/-! ## Layers -/

/-- A settings file that cannot be read or understood. -/
inductive SettingsError
  | unreadable (path : String) (error : FileError)
  | invalid (path : String)
  deriving DecidableEq

def SettingsError.message : SettingsError → String
  | unreadable path _ => s!"failed to read {path}"
  | invalid path => s!"invalid config in {path}"

/-- The table of a layer, none if the file is missing. Its settings have the right form. -/
def layer (disk : Disk) (path : String) : Except SettingsError (Option Table) :=
  match disk.read path with
  | .error .missing => .ok none
  | .error error => .error (.unreadable path error)
  | .ok text =>
    match Toml.parse text with
    | none => .error (.invalid path)
    | some table =>
      if (Settings.ofTable table).isSome then .ok (some table) else .error (.invalid path)

/-- All layers joined. -/
def joinLayers (disk : Disk) : List String → Table → Except SettingsError Table
  | [], joined => .ok joined
  | path :: rest, joined => do
    match ← layer disk path with
    | some table => joinLayers disk rest (Toml.overlay joined table)
    | none => joinLayers disk rest joined

def loadLayers (disk : Disk) (paths : List String) : Except SettingsError Settings := do
  match Settings.ofTable (← joinLayers disk paths []) with
  | some settings => return settings
  | none => throw (.invalid (paths.getLast?.getD ""))

/-- The settings file of the user, in the folder for such files. -/
def userSettingsPath (folder : String) : String :=
  Path.join (Path.join folder "swiftkt") "config.toml"

/-- The settings file of a project. -/
def projectSettingsPath (root : String) : String :=
  Path.join (Path.join root ".swiftkt") "config.toml"

/-- The settings of the user under those of the project. -/
def loadSettings (disk : Disk) (userFolder : Option String) (root : String) :
    Except SettingsError Settings :=
  loadLayers disk ((userFolder.map userSettingsPath).toList ++ [projectSettingsPath root])

end Workspace

end SwiftToKotlin
