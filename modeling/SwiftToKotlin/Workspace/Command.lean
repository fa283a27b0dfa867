import SwiftToKotlin.Kotlin.Outline
import SwiftToKotlin.Swift.Outline
import SwiftToKotlin.Workspace.Plan
import SwiftToKotlin.Workspace.Report

/-! # Commands

The commands work on a disk and print. A failure ends the work on a file or folder, but not the
printing done so far.
-/

namespace SwiftToKotlin.Workspace

/-- The tree that is drawn: the dump, the Swift tree or the Kotlin tree. -/
inductive Stage
  | dump
  | swift
  | kotlin
  deriving DecidableEq

inductive Command
  /-- Converts a dump into a file, or to the standard output; or reports on it as JSON. -/
  | convert (dump : String) (output : Option String) (json : Bool)
  /-- Draws a tree of a dump, with the kinds of the dump spelled out if `expand`. -/
  | tree (dump : String) (stage : Stage) (expand : Bool)
  /-- Makes the outdated Kotlin files of folders. -/
  | update (folders : List String)

/-- What ends the work on a file or folder. -/
inductive Failure
  | read (path : String) (error : FileError)
  | write (path : String) (error : FileError)
  | scan (error : ScanError)
  deriving DecidableEq

def Failure.message : Failure → String
  | read path error => s!"failed to read {path}: {error.message}"
  | write path error => s!"failed to write {path}: {error.message}"
  | scan error => s!"failed to scan {error.path}: {error.message}: {error.error.message}"

/-- What commands have done: the disk as they leave it, what they have printed on both streams, and
the paths of the files that they have written. -/
structure Run where
  disk : Disk
  stdout : String := ""
  stderr : String := ""
  written : List String := []

abbrev Job := ExceptT Failure (StateM Run)

namespace Job

def print (text : String) : Job Unit :=
  modify fun run => { run with stdout := run.stdout ++ text }

/-- Prints a line on the error stream. -/
def complain (line : String) : Job Unit :=
  modify fun run => { run with stderr := run.stderr ++ line ++ "\n" }

def complainAll (diagnostics : List Diagnostic) : Job Unit :=
  diagnostics.forM fun diagnostic => complain diagnostic.display

def readText (path : String) : Job String := do
  match (← get).disk.read path with
  | .ok text => return text
  | .error error => throw (.read path error)

/-- Writes a file with the time of the command. -/
def writeText (now : Nat) (path text : String) : Job Unit := do
  let run ← get
  match run.disk.write path (.text text) now with
  | .ok disk => set { run with disk, written := run.written ++ [path] }
  | .error error => throw (.write path error)

def plan (folder : String) : Job Plan := do
  match Plan.ofFolder (← get).disk folder with
  | .ok plan => return plan
  | .error error => throw (.scan error)

/-! ## The commands

Each tells whether all went well.
-/

/-- Goes on with a dump that can be parsed. -/
def withParsed {α : Type} (file : String) (parsed : Except Dump.SyntaxError α)
    (job : α → Job Bool) : Job Bool :=
  match parsed with
  | .ok value => job value
  | .error error => do
    complain s!"{file}: {error.message}"
    return false

def convert (settings : Settings) (now : Nat) (dump : String) (output : Option String)
    (json : Bool) : Job Bool := do
  let text ← readText dump
  withParsed dump (Conversion.ofText settings dump text) fun conversion => do
    output.forM fun path => writeText now path (conversion.source settings)
    if json then print ((conversion.report settings dump).pretty ++ "\n")
    else
      if output.isNone then print (conversion.source settings)
      complainAll conversion.diagnostics
    return !conversion.hasErrors

/-- Draws a tree behind what there is to tell about it. Problems in the source do not count. -/
def draw (settings : Settings) (dump : String) (stage : Stage) (expand : Bool) : Job Bool := do
  let text ← readText dump
  withParsed dump (Dump.parse dump text) fun node => do
    let tree ← match stage with
      | .dump => pure (if expand then node.readable else node).outline
      | .swift => do
        let (swift, diagnostics) := (Swift.Node.ofDump node).run []
        complainAll diagnostics
        pure swift.outline
      | .kotlin => do
        let conversion := Conversion.ofDump settings node
        complainAll conversion.diagnostics
        pure conversion.kotlin.outline
    print (tree.draw settings.limit)
    return true

/-- Makes a Kotlin file anew. -/
def updateFile (settings : Settings) (now : Nat) (dump kotlin : String) : Job Bool := do
  print s!"Updating {kotlin}...\n"
  let text ← readText dump
  withParsed dump (Conversion.ofText settings dump text) fun conversion => do
    writeText now kotlin (conversion.source settings)
    complainAll conversion.diagnostics
    return !conversion.hasErrors

def updateFiles (settings : Settings) (now : Nat) : List (String × String) → Job Bool
  | [] => pure true
  | (dump, kotlin) :: rest => do
    let clean ← updateFile settings now dump kotlin
    let restClean ← updateFiles settings now rest
    return clean && restClean

/-- Makes the outdated Kotlin files of a folder and tells which Swift files need a new dump. -/
def updateFolder (settings : Settings) (now : Nat) (folder : String) : Job Bool := do
  let plan ← plan folder
  plan.needsDump.forM fun swift =>
    complain
      s!"{swift} needs a new dump: run `swiftc -dump-ast` to update {Plan.dumpOf swift}"
  let clean ← updateFiles settings now plan.outdated
  return clean && plan.needsDump.isEmpty

/-- A job whose failure is told and counts as a bad end. -/
def contained (job : Job Bool) : Job Bool :=
  tryCatch job fun failure => do
    complain s!"error: {failure.message}"
    return false

/-- A failure in one folder does not keep the others from being updated. -/
def updateFolders (settings : Settings) (now : Nat) : List String → Job Bool
  | [] => pure true
  | folder :: rest => do
    let clean ← contained (updateFolder settings now folder)
    let restClean ← updateFolders settings now rest
    return clean && restClean

def ofCommand (settings : Settings) (now : Nat) : Command → Job Bool
  | .convert dump output json => contained (convert settings now dump output json)
  | .tree dump stage expand => contained (draw settings dump stage expand)
  | .update folders => updateFolders settings now folders

end Job

/-- Runs a command on a disk. Files are written with the time `now`. The exit code is zero if all
went well. -/
def Command.run (settings : Settings) (now : Nat) (disk : Disk) (command : Command) : Nat × Run :=
  let (result, run) := ((Job.ofCommand settings now command).run).run { disk }
  match result with
  | .ok true => (0, run)
  | _ => (1, run)

end SwiftToKotlin.Workspace
