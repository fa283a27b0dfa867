import SwiftToKotlin.Workspace.Arguments

/-! # The command line program

The files that a command looks at are loaded, the command is run on them, and what it has written
and printed goes out.
-/

namespace SwiftToKotlin.Workspace

/-- The path of the first parts of a path. -/
def leadingPath (parts : List String) : String :=
  parts.foldl Path.join ""

/-- Puts what there is at a path onto the disk. -/
def loadEntry (withContent : Bool) (disk : Disk) (path : String) : IO Disk := do
  let file := System.mkFilePath [path]
  let place := (Path.parts path).foldl Disk.step []
  match ← file.metadata.toBaseIO with
  | .error _ => return disk
  | .ok data =>
    let time := data.modified.sec.toNat * 1000000000 + data.modified.nsec.toNat
    if data.type == .dir then return disk.put place (.folder time)
    else
      let bytes ← if withContent then IO.FS.readBinFile file else pure .empty
      return disk.put place (.file (.ofBytes bytes.toList) time)

/-- Puts the files in a folder onto the disk, with the content of the dumps only. -/
def loadFolder (disk : Disk) (path : String) : IO Disk := do
  let file := System.mkFilePath [path]
  if ← file.isDir then
    (← file.readDir).toList.foldlM (fun disk entry =>
      loadEntry (Path.extension? entry.fileName == some dumpExtension) disk
        (Path.join path entry.fileName)) disk
  else return disk

/-- Puts all that is on the way to a path onto the disk. -/
def loadPath (disk : Disk) (path : String) : IO Disk := do
  let parts := Path.parts path
  let disk ← (List.range parts.length).foldlM (fun disk n =>
    loadEntry true disk (leadingPath (parts.take (n + 1)))) disk
  loadFolder disk path

/-- A time after all changes of what is on the disk. -/
def Disk.nextTime (disk : Disk) : Nat :=
  disk.entries.foldl (fun latest entry => max latest entry.2.time) 0 + 1

/-- The folder for the settings files of the user. -/
def userFolder : IO (Option String) := do
  match ← IO.getEnv "XDG_CONFIG_HOME", ← IO.getEnv "HOME" with
  | some folder, _ => return some folder
  | none, some home => return some (Path.join home ".config")
  | none, none => return none

def runInvocation (invocation : Invocation) : IO UInt32 := do
  let user ← userFolder
  let paths := (user.map userSettingsPath).toList ++ invocation.paths
  let disk ← paths.foldlM loadPath (← loadEntry false (.empty 0) ".")
  match loadSettings disk user invocation.root with
  | .error error =>
    IO.eprintln s!"error: {error.message}"
    return 1
  | .ok settings =>
    let (code, run) := invocation.command.run settings disk.nextTime disk
    run.written.forM fun path =>
      match run.disk.read path with
      | .ok text => IO.FS.writeFile path text
      | .error _ => pure ()
    IO.print run.stdout
    IO.eprint run.stderr
    return code.toUInt32

def usage : String :=
  "usage: swiftkt [--root FOLDER] COMMAND\n" ++
  "  translate DUMP [-o FILE] [--json]\n" ++
  "  tree DUMP [--stage raw|swift|kotlin] [--expand]\n" ++
  "  update FOLDER..."

end SwiftToKotlin.Workspace

def main (arguments : List String) : IO UInt32 := do
  match SwiftToKotlin.Workspace.Invocation.ofArguments? arguments with
  | some invocation => SwiftToKotlin.Workspace.runInvocation invocation
  | none =>
    IO.eprintln SwiftToKotlin.Workspace.usage
    return 2
