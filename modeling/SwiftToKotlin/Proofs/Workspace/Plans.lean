import Mathlib.Data.Set.List
import SwiftToKotlin.Proofs.Workspace.Disk
import SwiftToKotlin.Workspace.Plan

/-!
# Plans for a folder

On a sound disk a plan names exactly the dumps of the folder whose Kotlin file is missing or older,
and the Swift files whose dump is. No two dumps of a folder have the same Kotlin file.
-/

namespace SwiftToKotlin.Workspace

open SwiftToKotlin.Path (IsName IsExtension join fileName filePath)

/-! ## The kinds of files -/

theorem isExtension_dump : IsExtension dumpExtension :=
  ⟨by decide, by decide, by decide, by decide⟩

theorem isExtension_kotlin : IsExtension kotlinExtension :=
  ⟨by decide, by decide, by decide, by decide⟩

theorem isExtension_swift : IsExtension swiftExtension :=
  ⟨by decide, by decide, by decide, by decide⟩

theorem dump_ne_kotlin (a b : String) : fileName a dumpExtension ≠ fileName b kotlinExtension :=
  Path.fileName_ne isExtension_dump.dotless isExtension_kotlin.dotless (by decide)

theorem swift_ne_kotlin (a b : String) : fileName a swiftExtension ≠ fileName b kotlinExtension :=
  Path.fileName_ne isExtension_swift.dotless isExtension_kotlin.dotless (by decide)

/-- With a shorter extension a name fits as well. -/
theorem Disk.Fits.fileName (h : Disk.Fits folder (fileName stem longer))
    (hsize : shorter.utf8ByteSize ≤ longer.utf8ByteSize) :
    Disk.Fits folder (Path.fileName stem shorter) := by
  refine h.of_le ?_
  simp only [Path.fileName, toString, String.utf8ByteSize_append]
  omega

/-- The paths of a dump and its Kotlin file. -/
def Plan.pairOf (folder stem : String) : String × String :=
  (filePath folder stem dumpExtension, filePath folder stem kotlinExtension)

theorem Plan.kotlinOf_filePath (h : IsName (fileName stem dumpExtension)) :
    kotlinOf (filePath folder stem dumpExtension) = filePath folder stem kotlinExtension :=
  Path.changeExtension_filePath _ h.slashless isExtension_dump.dotless

theorem Plan.dumpOf_filePath (h : IsName (fileName stem swiftExtension)) :
    dumpOf (filePath folder stem swiftExtension) = filePath folder stem dumpExtension :=
  Path.changeExtension_filePath _ h.slashless isExtension_swift.dotless

/-! ## Plans -/

/-- The folder at the end of a path holds a file of a name. -/
def Disk.Holds (disk : Disk) (folder name : String) : Prop :=
  ∃ place content time, disk.Opens folder place ∧
    disk.get? (place ++ [name]) = some (.file content time)

/-- The folder holds a dump whose Kotlin file is missing or older. -/
def Disk.IsStale (disk : Disk) (folder stem : String) : Prop :=
  stem ≠ "" ∧ disk.Holds folder (fileName stem dumpExtension) ∧
    isOutdated disk (filePath folder stem dumpExtension) (filePath folder stem kotlinExtension)

/-- The folder holds a Swift file whose dump is missing or older. -/
def Disk.NeedsDump (disk : Disk) (folder stem : String) : Prop :=
  stem ≠ "" ∧ disk.Holds folder (fileName stem swiftExtension) ∧
    isOutdated disk (filePath folder stem swiftExtension) (filePath folder stem dumpExtension)

section

variable {disk : Disk}

theorem Disk.Opens.holds_iff (h : disk.Opens folder place) :
    disk.Holds folder name ↔
      ∃ content time, disk.get? (place ++ [name]) = some (.file content time) := by
  constructor
  · rintro ⟨other, content, time, hother, hget⟩
    obtain rfl : place = other := Except.ok.inj (h.resolve.symm.trans hother.resolve)
    exact ⟨content, time, hget⟩
  · rintro ⟨content, time, hget⟩
    exact ⟨place, content, time, h, hget⟩

theorem Disk.Holds.isName (hsound : disk.Sound) (h : disk.Holds folder name) : IsName name := by
  obtain ⟨place, content, time, -, hget⟩ := h
  exact (hsound.isName hget).1

theorem mem_filesWithExtension (hsound : disk.Sound) (hdot : '.' ∉ extension.toList)
    (h : filesWithExtension disk folder extension = .ok paths) :
    path ∈ paths ↔ ∃ stem, stem ≠ "" ∧ disk.Holds folder (fileName stem extension) ∧
      path = filePath folder stem extension := by
  rw [filesWithExtension, Disk.list] at h
  cases hfind : disk.find folder with
  | error error =>
    rw [hfind] at h
    cases h
  | ok found =>
    obtain ⟨place, entry⟩ := found
    rw [hfind] at h
    cases entry with
    | file content time =>
      obtain rfl : [] = paths := Except.ok.inj h
      have hnone (name : String) : ¬ disk.Holds folder name := by
        rintro ⟨other, _, _, ⟨time, hother⟩, -⟩
        rw [hfind] at hother
        cases hother
      simp [hnone]
    | folder time =>
      have hopens : disk.Opens folder place := ⟨time, hfind⟩
      obtain rfl := Except.ok.inj h
      simp only [List.mem_map, List.mem_filter, Disk.mem_filesIn hsound, beq_iff_eq,
        Path.extension?_eq_some_iff, ← hopens.holds_iff]
      constructor
      · rintro ⟨_, ⟨hholds, -, stem, hstem, rfl⟩, rfl⟩
        exact ⟨stem, hstem, hholds, rfl⟩
      · rintro ⟨stem, hstem, hholds, rfl⟩
        exact ⟨_, ⟨hholds, hdot, stem, hstem, rfl⟩, rfl⟩

theorem isOutdated_eq_false_iff :
    isOutdated disk source output = false ↔
      ∃ time, disk.time? output = some time ∧ ∀ own, disk.time? source = some own → own ≤ time := by
  rw [isOutdated]
  cases disk.time? source <;> cases disk.time? output <;> simp

theorem Plan.ofFolder_eq_ok (h : Plan.ofFolder disk folder = .ok plan) :
    ∃ swift dumps, filesWithExtension disk folder swiftExtension = .ok swift ∧
      filesWithExtension disk folder dumpExtension = .ok dumps ∧
      plan.outdated = (dumps.map fun dump => (dump, kotlinOf dump)).filter
        (fun pair => isOutdated disk pair.1 pair.2) ∧
      plan.needsDump = swift.filter fun swift => isOutdated disk swift (dumpOf swift) := by
  rw [ofFolder] at h
  cases hswift : filesWithExtension disk folder swiftExtension with
  | error error =>
    rw [hswift] at h
    cases h
  | ok swift =>
    cases hdumps : filesWithExtension disk folder dumpExtension with
    | error error =>
      rw [hswift, hdumps] at h
      cases h
    | ok dumps =>
      rw [hswift, hdumps] at h
      obtain rfl := Except.ok.inj h
      exact ⟨swift, dumps, rfl, rfl, rfl, rfl⟩

theorem Plan.mem_outdated (hsound : disk.Sound) (h : Plan.ofFolder disk folder = .ok plan) :
    pair ∈ plan.outdated ↔ ∃ stem, disk.IsStale folder stem ∧ pair = pairOf folder stem := by
  obtain ⟨swift, dumps, -, hdumps, houtdated, -⟩ := ofFolder_eq_ok h
  simp only [houtdated, List.mem_filter, List.mem_map,
    mem_filesWithExtension hsound isExtension_dump.dotless hdumps]
  constructor
  · rintro ⟨⟨_, ⟨stem, hstem, hholds, rfl⟩, rfl⟩, hold⟩
    rw [kotlinOf_filePath (hholds.isName hsound)] at hold ⊢
    exact ⟨stem, ⟨hstem, hholds, hold⟩, rfl⟩
  · rintro ⟨stem, ⟨hstem, hholds, hold⟩, rfl⟩
    refine ⟨⟨_, ⟨stem, hstem, hholds, rfl⟩, ?_⟩, hold⟩
    rw [kotlinOf_filePath (hholds.isName hsound), pairOf]

theorem Plan.mem_needsDump (hsound : disk.Sound) (h : Plan.ofFolder disk folder = .ok plan) :
    path ∈ plan.needsDump ↔
      ∃ stem, disk.NeedsDump folder stem ∧ path = filePath folder stem swiftExtension := by
  obtain ⟨swift, dumps, hswift, -, -, hneeds⟩ := ofFolder_eq_ok h
  simp only [hneeds, List.mem_filter,
    mem_filesWithExtension hsound isExtension_swift.dotless hswift]
  constructor
  · rintro ⟨⟨stem, hstem, hholds, rfl⟩, hold⟩
    rw [dumpOf_filePath (hholds.isName hsound)] at hold
    exact ⟨stem, ⟨hstem, hholds, hold⟩, rfl⟩
  · rintro ⟨stem, ⟨hstem, hholds, hold⟩, rfl⟩
    exact ⟨⟨stem, hstem, hholds, rfl⟩, by rwa [dumpOf_filePath (hholds.isName hsound)]⟩

theorem exists_filesWithExtension (extension : String) (h : disk.find folder = .ok found) :
    ∃ paths, filesWithExtension disk folder extension = .ok paths := by
  obtain ⟨place, entry⟩ := found
  rw [filesWithExtension, Disk.list, h]
  cases entry <;> exact ⟨_, rfl⟩

/-- There is a plan for a folder if there is something at its path. -/
theorem Plan.exists_ofFolder_iff :
    (∃ plan, Plan.ofFolder disk folder = .ok plan) ↔ ∃ found, disk.find folder = .ok found := by
  constructor
  · rintro ⟨plan, hplan⟩
    obtain ⟨swift, -, hswift, -⟩ := ofFolder_eq_ok hplan
    cases hfind : disk.find folder with
    | error error =>
      rw [filesWithExtension, Disk.list, hfind] at hswift
      cases hswift
    | ok found => exact ⟨found, rfl⟩
  · rintro ⟨found, hfound⟩
    obtain ⟨swift, hswift⟩ := exists_filesWithExtension swiftExtension hfound
    obtain ⟨dumps, hdumps⟩ := exists_filesWithExtension dumpExtension hfound
    rw [ofFolder, hswift, hdumps]
    exact ⟨_, rfl⟩

theorem Plan.exists_stems (hsound : disk.Sound) (h : Plan.ofFolder disk folder = .ok plan) :
    ∃ stems : List String, plan.outdated = stems.map (pairOf folder) ∧
      ∀ stem, stem ∈ stems ↔ disk.IsStale folder stem := by
  have hrange : plan.outdated ∈ Set.range (List.map (pairOf folder)) := by
    rw [Set.range_list_map]
    intro pair hpair
    obtain ⟨stem, -, rfl⟩ := (mem_outdated hsound h).1 hpair
    exact ⟨stem, rfl⟩
  obtain ⟨stems, hstems⟩ := hrange
  have hinjective : Function.Injective (pairOf folder) := fun a b heq =>
    Path.filePath_injective (Prod.mk.inj heq).1
  refine ⟨stems, hstems.symm, fun stem => ?_⟩
  rw [← List.mem_map_of_injective hinjective, hstems, mem_outdated hsound h]
  constructor
  · rintro ⟨other, hother, heq⟩
    obtain rfl := hinjective heq
    exact hother
  · intro hstem
    exact ⟨stem, hstem, rfl⟩

end

end SwiftToKotlin.Workspace
