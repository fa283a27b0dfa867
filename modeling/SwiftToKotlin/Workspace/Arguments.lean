import SwiftToKotlin.Workspace.Command
import SwiftToKotlin.Workspace.Layers

/-! # Command lines -/

namespace SwiftToKotlin.Workspace

/-- A command together with the folder of the project. -/
structure Invocation where
  root : String := "."
  command : Command

def Stage.ofName? : String → Option Stage
  | "raw" => some .dump
  | "swift" => some .swift
  | "kotlin" => some .kotlin
  | _ => none

namespace Invocation

/-- The value of an option and the arguments without the option. -/
def takeOption (names : List String) : List String → Option (Option String × List String)
  | [] => some (none, [])
  | argument :: rest =>
    if names.contains argument then
      match rest with
      | value :: rest => some (some value, rest)
      | [] => none
    else do
      let (value, rest) ← takeOption names rest
      return (value, argument :: rest)

/-- Whether a flag is given, and the arguments without it. -/
def takeFlag (name : String) (arguments : List String) : Bool × List String :=
  (arguments.contains name, arguments.filter (· != name))

def convert? (arguments : List String) : Option Command := do
  let (output, arguments) ← takeOption ["-o", "--output"] arguments
  let (json, arguments) := takeFlag "--json" arguments
  match arguments with
  | [dump] => return .convert dump output json
  | _ => none

def tree? (arguments : List String) : Option Command := do
  let (name, arguments) ← takeOption ["--stage"] arguments
  let stage ← Stage.ofName? (name.getD "swift")
  let (expand, arguments) := takeFlag "--expand" arguments
  match arguments with
  | [dump] => return .tree dump stage expand
  | _ => none

def update? (folders : List String) : Option Command :=
  if folders.isEmpty then none else some (.update folders)

def ofArguments? (arguments : List String) : Option Invocation := do
  let (root, arguments) ← takeOption ["--root"] arguments
  let command ← match arguments with
    | "translate" :: rest => convert? rest
    | "tree" :: rest => tree? rest
    | "update" :: rest => update? rest
    | _ => none
  return { root := root.getD ".", command }

/-- The files and folders that a command looks at or writes. -/
def paths (invocation : Invocation) : List String :=
  projectSettingsPath invocation.root ::
    match invocation.command with
    | .convert dump output _ => dump :: output.toList
    | .tree dump _ _ => [dump]
    | .update folders => folders

end Invocation

end SwiftToKotlin.Workspace
