import SwiftToKotlin.Proofs.Text.Cutting
import SwiftToKotlin.Workspace.Path

/-!
# Paths of the entries of a folder

The parts of the path of an entry are those on the way to its folder and the name of the entry,
whether or not the path of the folder ends in a slash. A name with an extension is a stem, a dot
and the extension, and to change the extension of a path is to change it in the name at its end.
-/

namespace SwiftToKotlin.Path

/-! ## Names -/

/-- A name that an entry of a folder can have. -/
structure IsName (name : String) : Prop where
  nonempty : name ≠ ""
  slashless : '/' ∉ name.toList
  zeroless : '\x00' ∉ name.toList
  not_dot : name ≠ "."
  not_dots : name ≠ ".."

/-- The name of a file with an extension. -/
def fileName (stem extension : String) : String :=
  s!"{stem}.{extension}"

@[simp]
theorem toList_fileName (stem extension : String) :
    (fileName stem extension).toList = stem.toList ++ '.' :: extension.toList := by
  simp [fileName, toString]

theorem fileName_injective (h : fileName a extension = fileName b extension) : a = b := by
  simpa [fileName, toString] using h

/-- Letters that can stand for the kind of a file. -/
structure IsExtension (extension : String) : Prop where
  nonempty : extension ≠ ""
  dotless : '.' ∉ extension.toList
  slashless : '/' ∉ extension.toList
  zeroless : '\x00' ∉ extension.toList

/-- Files with different extensions have different names. -/
theorem fileName_ne (hfirst : '.' ∉ first.toList) (hsecond : '.' ∉ second.toList)
    (h : first ≠ second) :
    fileName a first ≠ fileName b second := by
  intro heq
  have hcut := Text.cutLast_append_cons a.toList hfirst
  rw [← toList_fileName, heq, toList_fileName, Text.cutLast_append_cons b.toList hsecond] at hcut
  simp only [Option.some.injEq, Prod.mk.injEq, String.toList_inj] at hcut
  exact h hcut.2.symm

/-- The extension of a name is what follows the last dot, if something stands before it. -/
theorem extension?_eq_some_iff :
    extension? name = some extension ↔
      '.' ∉ extension.toList ∧ ∃ stem, stem ≠ "" ∧ name = fileName stem extension := by
  rw [extension?]
  constructor
  · intro h
    split at h
    · next c before after hcut =>
      obtain ⟨hname, hafter⟩ := Text.cutLast_singleton_iff.1 hcut
      obtain rfl : String.ofList after = extension := by simpa using h
      refine ⟨by simpa using hafter, String.ofList (c :: before), by simp, ?_⟩
      apply String.toList_inj.1
      simp [hname]
    · cases h
  · rintro ⟨hextension, stem, hstem, rfl⟩
    rw [toList_fileName, Text.cutLast_append_cons _ hextension]
    cases hchars : stem.toList with
    | nil => exact absurd (String.toList_eq_nil_iff.1 hchars) hstem
    | cons c before => simp

theorem changeNameExtension_fileName (new : String) (h : '.' ∉ extension.toList) :
    changeNameExtension new (fileName stem extension).toList = fileName stem new := by
  rw [changeNameExtension, toList_fileName, Text.cutLast_append_cons _ h]
  simp [fileName]

/-- A name stays one with another extension. -/
theorem IsName.fileName (h : IsName (fileName stem extension)) (hnew : IsExtension new) :
    IsName (Path.fileName stem new) := by
  have hslash : '/' ∉ stem.toList := fun hmem => h.slashless (by simp [hmem])
  have hzero : '\x00' ∉ stem.toList := fun hmem => h.zeroless (by simp [hmem])
  -- A text of dots has no last letter other than a dot.
  have hdots (dots : String) (hall : ∀ c ∈ dots.toList, c = '.') :
      Path.fileName stem new ≠ dots := by
    rintro rfl
    obtain ⟨c, hc⟩ := List.exists_mem_of_ne_nil _ (mt String.toList_eq_nil_iff.1 hnew.nonempty)
    have hdot : c = '.' := hall c (by simp [hc])
    exact hnew.dotless (hdot ▸ hc)
  exact {
    nonempty := hdots "" (by simp)
    slashless := by simp [hslash, hnew.slashless]
    zeroless := by simp [hzero, hnew.zeroless]
    not_dot := hdots "." (by simp)
    not_dots := hdots ".." (by simp) }

/-! ## Joined paths -/

theorem endsInSlash_iff : endsInSlash folder ↔ ∃ lead, folder.toList = lead ++ ['/'] := by
  rw [endsInSlash, beq_iff_eq, List.getLast?_eq_some_iff]

/-- What stands before the slash in front of a name. -/
theorem exists_toList_join (h : folder ≠ "") :
    ∃ lead : List Char, (∀ name, (join folder name).toList = lead ++ '/' :: name.toList) ∧
      (folder.toList = lead ++ ['/'] ∨ folder.toList = lead ∧ lead ≠ []) := by
  by_cases hslash : endsInSlash folder
  · obtain ⟨lead, hlead⟩ := endsInSlash_iff.1 hslash
    exact ⟨lead, fun name => by simp [join, hslash, hlead], .inl hlead⟩
  · refine ⟨folder.toList, fun name => by simp [join, hslash, h, toString], .inr ⟨rfl, ?_⟩⟩
    exact mt String.toList_eq_nil_iff.1 h

/-- The parts on the way to a name that follows a slash. -/
def way (lead : List Char) : List String :=
  if lead = [] then ["/"] else parts (String.ofList lead)

theorem parts_relative (hpath : path.toList = c :: rest) (hc : c ≠ '/') :
    parts path = (Text.pieces '/' (c :: rest)).map String.ofList := by
  rw [parts, hpath]
  split
  · next heq => exact absurd (List.cons.inj heq).1 hc
  · rfl

theorem parts_eq_way {path : String} (hpath : path.toList = lead ++ '/' :: rest)
    (hrest : '/' ∉ rest) :
    parts path = way lead ++ [String.ofList rest] := by
  cases lead with
  | nil => simp [parts, hpath, way, Text.pieces_of_not_mem hrest]
  | cons c lead =>
    by_cases hc : c = '/'
    · subst hc
      simp [parts, hpath, way, Text.pieces_append, Text.pieces_of_not_mem hrest]
    · rw [List.cons_append] at hpath
      rw [way, if_neg (List.cons_ne_nil c lead), parts_relative hpath hc,
        parts_relative String.toList_ofList hc, ← List.cons_append, Text.pieces_append,
        Text.pieces_of_not_mem hrest, List.map_append, List.map_singleton]

/-- The way to an entry of a folder is the way to the folder. A slash at the end of the path of the
folder is followed by an empty part. -/
theorem exists_parts_join (h : folder ≠ "") :
    ∃ way : List String, (parts folder = way ∨ parts folder = way ++ [""]) ∧
      ∀ name : String, '/' ∉ name.toList → parts (join folder name) = way ++ [name] := by
  obtain ⟨lead, hjoin, hfolder⟩ := exists_toList_join h
  refine ⟨way lead, ?_, fun name hname => ?_⟩
  · rcases hfolder with hslash | ⟨hlead, hne⟩
    · exact .inr (parts_eq_way hslash (by simp))
    · rw [way, if_neg hne, ← hlead, String.ofList_toList]
      exact .inl rfl
  · rw [parts_eq_way (hjoin name) hname, String.ofList_toList]

theorem join_injective (h : join folder a = join folder b) : a = b := by
  by_cases hfolder : folder = ""
  · simpa [join, hfolder] using h
  · obtain ⟨lead, hjoin, -⟩ := exists_toList_join hfolder
    rw [← String.toList_inj, hjoin, hjoin] at h
    simpa [String.toList_inj] using h

theorem changeExtension_join (new folder : String) (hname : '/' ∉ name.toList) :
    changeExtension new (join folder name) = join folder (changeNameExtension new name.toList) := by
  by_cases hfolder : folder = ""
  · rw [join, join, if_pos (.inl hfolder), if_pos (.inl hfolder), hfolder, String.empty_append,
      String.empty_append, changeExtension, Text.cutLast_singleton_eq_none_iff.2 hname]
  · obtain ⟨lead, hjoin, -⟩ := exists_toList_join hfolder
    apply String.toList_inj.1
    rw [changeExtension, hjoin, hjoin, Text.cutLast_append_cons _ hname]
    simp [toString]

/-- The longer the name, the longer the path. -/
theorem exists_utf8ByteSize_join (folder : String) :
    ∃ size, ∀ name, (join folder name).utf8ByteSize = size + name.utf8ByteSize := by
  by_cases h : folder = "" ∨ endsInSlash folder
  · exact ⟨folder.utf8ByteSize, fun name => by rw [join, if_pos h, String.utf8ByteSize_append]⟩
  · refine ⟨(folder ++ "/").utf8ByteSize, fun name => ?_⟩
    rw [join, if_neg h]
    simp [toString]

/-- The path of a file with an extension. -/
def filePath (folder stem extension : String) : String :=
  join folder (fileName stem extension)

theorem filePath_injective (h : filePath folder a extension = filePath folder b extension) :
    a = b :=
  fileName_injective (join_injective h)

theorem changeExtension_filePath (new : String) (hname : '/' ∉ (fileName stem extension).toList)
    (hdot : '.' ∉ extension.toList) :
    changeExtension new (filePath folder stem extension) = filePath folder stem new := by
  rw [filePath, changeExtension_join new folder hname, changeNameExtension_fileName new hdot,
    filePath]

end SwiftToKotlin.Path
