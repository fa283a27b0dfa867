import SwiftToKotlin.Text.Cut

/-! # Paths

Paths are texts with slashes between their parts, kept as they were given.
-/

namespace SwiftToKotlin.Path

/-- The parts of a path between the slashes, behind a slash if the path begins with one. -/
def parts (path : String) : List String :=
  match path.toList with
  | '/' :: rest => "/" :: (Text.pieces '/' rest).map String.ofList
  | cs => (Text.pieces '/' cs).map String.ofList

def endsInSlash (path : String) : Bool :=
  path.toList.getLast? == some '/'

/-- The parts on the way to the last one, slashes at the end aside. -/
def leading (path : String) : List String :=
  ((parts path).reverse.dropWhile (· == "")).tail.reverse

/-- The path of an entry of a folder. -/
def join (folder name : String) : String :=
  if folder = "" ∨ endsInSlash folder then folder ++ name
  else s!"{folder}/{name}"

/-- The part after the last dot of a file name, which has to stand after something else. -/
def extension? (name : String) : Option String :=
  match Text.cutLast ['.'] name.toList with
  | some (_ :: _, after) => some (String.ofList after)
  | _ => none

/-- The name with another extension; a name without a dot gets one. -/
def changeNameExtension (extension : String) (name : List Char) : String :=
  match Text.cutLast ['.'] name with
  | some (stem, _) => s!"{String.ofList stem}.{extension}"
  | none => s!"{String.ofList name}.{extension}"

/-- The path with another extension. Dots in the names of folders are left alone. -/
def changeExtension (extension path : String) : String :=
  match Text.cutLast ['/'] path.toList with
  | some (folder, name) => s!"{String.ofList folder}/{changeNameExtension extension name}"
  | none => changeNameExtension extension path.toList

end SwiftToKotlin.Path
