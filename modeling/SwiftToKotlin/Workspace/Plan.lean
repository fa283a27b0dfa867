import SwiftToKotlin.Workspace.Disk

/-! # What there is to update

The Kotlin file of a dump lies next to it and is made anew when it is missing or older than the
dump. The dump of a Swift file lies next to it as well; one that is missing or older is only
reported, since dumps come from the Swift compiler.
-/

namespace SwiftToKotlin.Workspace

def swiftExtension : String := "swift"

def dumpExtension : String := "swiftASTDump"

def kotlinExtension : String := "kt"

/-- Whether `output` is missing or older than `source`. -/
def isOutdated (disk : Disk) (source output : String) : Bool :=
  match disk.time? source, disk.time? output with
  | _, none => true
  | some source, some output => output < source
  | none, some _ => false

/-- A folder that cannot be listed. -/
structure ScanError where
  path : String
  error : FileError
  deriving DecidableEq

def ScanError.message (error : ScanError) : String :=
  s!"IO error for operation on {error.path}: {error.error.message}"

/-- The paths of the files in a folder with an extension, in the order of their names. -/
def filesWithExtension (disk : Disk) (folder extension : String) :
    Except ScanError (List String) :=
  match disk.list folder with
  | .ok names =>
    .ok ((names.filter (Path.extension? · == some extension)).map (Path.join folder))
  | .error error => .error ⟨folder, error⟩

/-- The dumps with a Kotlin file to make, and the Swift files that need a new dump. -/
structure Plan where
  outdated : List (String × String)
  needsDump : List String
  deriving DecidableEq

namespace Plan

def isEmpty (plan : Plan) : Bool :=
  plan.outdated.isEmpty && plan.needsDump.isEmpty

def dumpOf (swift : String) : String :=
  Path.changeExtension dumpExtension swift

def kotlinOf (dump : String) : String :=
  Path.changeExtension kotlinExtension dump

def ofFolder (disk : Disk) (folder : String) : Except ScanError Plan := do
  let swift ← filesWithExtension disk folder swiftExtension
  let dumps ← filesWithExtension disk folder dumpExtension
  return {
    outdated := (dumps.map fun dump => (dump, kotlinOf dump)).filter fun (dump, kotlin) =>
      isOutdated disk dump kotlin
    needsDump := swift.filter fun swift => isOutdated disk swift (dumpOf swift) }

end Plan

end SwiftToKotlin.Workspace
