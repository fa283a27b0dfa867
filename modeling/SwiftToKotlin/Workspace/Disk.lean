import SwiftToKotlin.Workspace.Path

/-! # Files and folders

A disk assigns a file or a folder to places. Paths lead from the working folder to places, and only
through folders. A folder changes when it gains or loses an entry.
-/

namespace SwiftToKotlin.Workspace

/-- The names on the way from the working folder. -/
abbrev Place := List String

/-- What a file holds: text, or bytes that are no text. -/
inductive Content
  | text (text : String)
  | bytes (bytes : List UInt8)
  deriving DecidableEq

/-- Bytes as text if they are the UTF-8 encoding of one. -/
def Content.ofBytes (bytes : List UInt8) : Content :=
  match String.fromUTF8? ⟨bytes.toArray⟩ with
  | some decoded => text decoded
  | none => .bytes bytes

inductive Entry
  | file (content : Content) (time : Nat)
  | folder (time : Nat)
  deriving DecidableEq

/-- The time of the last change. -/
def Entry.time : Entry → Nat
  | file _ time => time
  | folder time => time

def Entry.withTime (time : Nat) : Entry → Entry
  | file content _ => file content time
  | folder _ => folder time

def Entry.isFile : Entry → Bool
  | file _ _ => true
  | folder _ => false

/-- Why a file cannot be read or written. -/
inductive FileError
  | missing
  | notFolder
  | isFolder
  | nameTooLong
  | zeroInName
  | notText
  deriving DecidableEq

def FileError.message : FileError → String
  | missing => "No such file or directory (os error 2)"
  | notFolder => "Not a directory (os error 20)"
  | isFolder => "Is a directory (os error 21)"
  | nameTooLong => "File name too long (os error 36)"
  | zeroInName => "file name contained an unexpected NUL byte"
  | notText => "stream did not contain valid UTF-8"

structure Disk where
  entries : List (Place × Entry)

namespace Disk

/-- Nothing but the working folder. -/
def empty (time : Nat) : Disk :=
  ⟨[([], .folder time)]⟩

/-! ## Places -/

def get? (disk : Disk) (place : Place) : Option Entry :=
  disk.entries.lookup place

def put (disk : Disk) (place : Place) (entry : Entry) : Disk :=
  ⟨(place, entry) :: disk.entries.filter (·.1 != place)⟩

/-- The disk without a place and all that is below it. -/
def erase (disk : Disk) (place : Place) : Disk :=
  ⟨disk.entries.filter fun entry => !place.isPrefixOf entry.1⟩

@[simp]
theorem get?_put_self (disk : Disk) (place : Place) (entry : Entry) :
    (disk.put place entry).get? place = some entry := by
  simp [get?, put]

theorem lookup_filter_ne {β : Type} (entries : List (Place × β)) {a b : Place} (h : a ≠ b) :
    (entries.filter (·.1 != b)).lookup a = entries.lookup a := by
  induction entries with
  | nil => rfl
  | cons entry rest ih =>
    obtain ⟨place, value⟩ := entry
    by_cases hb : place = b
    · subst hb
      have : (a == place) = false := by simpa using h
      simp [List.lookup_cons, this, ih]
    · by_cases ha : a = place
      · subst ha
        simp [hb]
      · have : (a == place) = false := by simpa using ha
        simp [hb, List.lookup_cons, this, ih]

theorem get?_put_of_ne (disk : Disk) {place other : Place} (entry : Entry) (h : other ≠ place) :
    (disk.put place entry).get? other = disk.get? other := by
  have : (other == place) = false := by simpa using h
  simp [get?, put, List.lookup_cons, this, lookup_filter_ne _ h]

/-! ## Times -/

/-- Sets the time of what is at a place. -/
def touch (disk : Disk) (place : Place) (time : Nat) : Disk :=
  match disk.get? place with
  | some entry => disk.put place (entry.withTime time)
  | none => disk

/-- Puts an entry. The folder around it changes if the entry is new there. -/
def add (disk : Disk) (place : Place) (entry : Entry) (time : Nat) : Disk :=
  match disk.get? place with
  | some _ => disk.put place entry
  | none => (disk.touch place.dropLast time).put place entry

/-- Removes what is at a place, and below it, from the folder around it. -/
def remove (disk : Disk) (place : Place) (time : Nat) : Disk :=
  match disk.get? place with
  | some _ => (disk.erase place).touch place.dropLast time
  | none => disk

@[simp]
theorem get?_add_self (disk : Disk) (place : Place) (entry : Entry) (time : Nat) :
    (disk.add place entry time).get? place = some entry := by
  unfold add
  split <;> simp

/-! ## Paths -/

/-- The greatest number of bytes in a name. -/
def maxNameSize : Nat := 255

/-- The greatest number of bytes in a path. -/
def maxPathSize : Nat := 4095

/-- Refuses paths that lead nowhere on any disk. -/
def requirePath (path : String) : Except FileError Unit :=
  if path.toList.contains '\x00' then .error .zeroInName
  else if path = "" then .error .missing
  else if maxPathSize < path.utf8ByteSize then .error .nameTooLong
  else .ok ()

/-- The place that a part of a path leads to. Two dots lead back, or out of the working folder. -/
def step (place : Place) (part : String) : Place :=
  if part = "" ∨ part = "." then place
  else if part = ".." ∧ place.getLast?.any (· != "..") then place.dropLast
  else place ++ [part]

def requireFolder (disk : Disk) (place : Place) : Except FileError Unit :=
  match disk.get? place with
  | some (.folder _) => .ok ()
  | some (.file _ _) => .error .notFolder
  | none => .error .missing

/-- Where a part of a path leads from a folder. -/
def enter (disk : Disk) (place : Place) (part : String) : Except FileError Place := do
  disk.requireFolder place
  if maxNameSize < part.utf8ByteSize then throw .nameTooLong
  return step place part

def walk (disk : Disk) : Place → List String → Except FileError Place
  | place, [] => .ok place
  | place, part :: rest => do disk.walk (← disk.enter place part) rest

/-- The place that a path leads to, whether or not there is anything. What a slash follows has to be
a folder. -/
def resolve (disk : Disk) (path : String) : Except FileError Place := do
  requirePath path
  disk.walk [] (Path.parts path)

/-- What there is at the end of a path. -/
def find (disk : Disk) (path : String) : Except FileError (Place × Entry) := do
  let place ← disk.resolve path
  match disk.get? place with
  | some entry => return (place, entry)
  | none => throw .missing

/-! ## Files -/

def read (disk : Disk) (path : String) : Except FileError String := do
  match ← disk.find path with
  | (_, .file (.text text) _) => return text
  | (_, .file (.bytes _) _) => throw .notText
  | (_, .folder _) => throw .isFolder

/-- Refuses to write at a path with a slash at its end, which only a folder can have. -/
def requireFilePath (disk : Disk) (path : String) : Except FileError Unit := do
  if Path.endsInSlash path then
    requirePath path
    disk.requireFolder (← disk.walk [] (Path.leading path))
    throw .isFolder

/-- Writes a file at a time. The folder around it has to be there. -/
def write (disk : Disk) (path : String) (content : Content) (time : Nat) :
    Except FileError Disk := do
  disk.requireFilePath path
  let place ← disk.resolve path
  match disk.get? place with
  | some (.folder _) => throw .isFolder
  | _ => return disk.add place (.file content time) time

/-- The time of the last change of what is at the end of a path. -/
def time? (disk : Disk) (path : String) : Option Nat :=
  match disk.find path with
  | .ok (_, entry) => some entry.time
  | .error _ => none

/-! ## Folders -/

/-- The name of an entry that lies in the folder itself. -/
def nameIn? (folder place : Place) : Option String :=
  match place.getLast? with
  | some name => if place.dropLast = folder then some name else none
  | none => none

/-- The names of the files in a folder, in order. -/
def filesIn (disk : Disk) (folder : Place) : List String :=
  let names := disk.entries.filterMap fun (place, entry) =>
    if entry.isFile then nameIn? folder place else none
  names.mergeSort fun a b => decide (a ≤ b)

/-- The names of the files in the folder at the end of a path. A file holds none. -/
def list (disk : Disk) (path : String) : Except FileError (List String) := do
  match ← disk.find path with
  | (place, .folder _) => return disk.filesIn place
  | (_, .file _ _) => return []

/-- Makes the folders on the way to a place, unless there is something. -/
def makeFolders (disk : Disk) (time : Nat) (place : Place) : Disk :=
  (List.range place.length).foldl (fun disk n =>
    let folder := place.take (n + 1)
    if (disk.get? folder).isSome then disk else disk.add folder (.folder time) time) disk

end Disk

end SwiftToKotlin.Workspace
