import SwiftToKotlin.Proofs.Dump.Grammar
import SwiftToKotlin.Proofs.Workspace.Update

/-!
# What an update leaves behind

An update of a folder changes no files but the Kotlin files that its plan names. These hold what
their own dumps are converted to, and after a good end there is nothing left to do.
-/

namespace SwiftToKotlin.Workspace

open SwiftToKotlin.Path (IsName IsExtension join fileName filePath)

/-- What an update of a folder leaves behind, by the plan for the folder. -/
structure Outcome (settings : Settings) (now : Nat) (folder : String) (plan : Plan)
    (disk after : Disk) (result : Except Failure Bool) : Prop where
  /-- Only files at the Kotlin paths of the plan change. -/
  files : ∀ place, (∀ pair ∈ plan.outdated, disk.resolve pair.2 ≠ .ok place) → ∀ content time,
    after.get? place = some (.file content time) ↔ disk.get? place = some (.file content time)
  folders : ∀ place, (∃ time, after.get? place = some (.folder time)) ↔
    ∃ time, disk.get? place = some (.folder time)
  /-- A Kotlin file that changes holds what its own dump is converted to. -/
  own : ∀ pair ∈ plan.outdated, after.find pair.2 = disk.find pair.2 ∨
    ∃ text conversion, disk.read pair.1 = .ok text ∧
      Conversion.ofText settings pair.1 text = .ok conversion ∧
      after.read pair.2 = .ok (conversion.source settings)
  unparsed : ∀ pair ∈ plan.outdated, ∀ text error, disk.read pair.1 = .ok text →
    Conversion.ofText settings pair.1 text = .error error → after.find pair.2 = disk.find pair.2
  /-- Unless a failure ends the work, no Kotlin file is left out. -/
  complete : ∀ clean, result = .ok clean → ∀ pair ∈ plan.outdated, ∀ text conversion,
    disk.read pair.1 = .ok text → Conversion.ofText settings pair.1 text = .ok conversion →
    after.read pair.2 = .ok (conversion.source settings)
  /-- After a good end there is nothing left to do, if the new files are the latest. -/
  settled : (∀ place content time, disk.get? place = some (.file content time) → time ≤ now) →
    result = .ok true → Plan.ofFolder after folder = .ok ⟨[], []⟩

section

theorem Outcome.idle (h : Plan.ofFolder disk folder = .ok ⟨[], []⟩) :
    Outcome settings now folder ⟨[], []⟩ disk disk (.ok true) where
  files _ _ _ _ := Iff.rfl
  folders _ := Iff.rfl
  own _ hpair := absurd hpair List.not_mem_nil
  unparsed _ hpair := absurd hpair List.not_mem_nil
  complete _ _ _ hpair := absurd hpair List.not_mem_nil
  settled _ _ := h

theorem WrittenFrom.fits (h : WrittenFrom settings now folder place stem disk after)
    (hopens : disk.Opens folder place) (hname : IsName (fileName stem dumpExtension)) :
    Disk.Fits folder (fileName stem kotlinExtension) := by
  obtain ⟨text, -, hread, -⟩ := h
  exact fits_kotlin ((Disk.read_join_eq_ok_iff hopens hname).1 hread).1

/-- What has been written is found there, with its time. -/
theorem WrittenFrom.found (h : WrittenFrom settings now folder place stem disk after)
    (hopens : disk.Opens folder place) (hafter : after.Opens folder place)
    (hname : IsName (fileName stem dumpExtension)) :
    ∃ text conversion, disk.read (filePath folder stem dumpExtension) = .ok text ∧
      Conversion.ofText settings (filePath folder stem dumpExtension) text = .ok conversion ∧
      after.read (filePath folder stem kotlinExtension) = .ok (conversion.source settings) ∧
      after.time? (filePath folder stem kotlinExtension) = some now := by
  have hfits := h.fits hopens hname
  have hkotlin := isName_kotlin hname
  obtain ⟨text, conversion, hread, hparse, hget⟩ := h
  refine ⟨text, conversion, hread, hparse, ?_, ?_⟩
  · exact (Disk.read_join_eq_ok_iff hafter hkotlin).2 ⟨hfits, now, hget⟩
  · rw [filePath, Disk.time?_join hafter hkotlin, if_pos hfits, hget]
    rfl

section Names

variable (h : Refreshed settings now folder place stems disk after result)
  (hopens : disk.Opens folder place) (hname : IsName (fileName stem dumpExtension))

include h hopens hname

theorem Refreshed.find_kotlin :
    after.find (filePath folder stem kotlinExtension) =
        disk.find (filePath folder stem kotlinExtension) ∨
      WrittenFrom settings now folder place stem disk after := by
  have hkotlin := isName_kotlin hname
  refine (h.kept stem hname).imp_left fun hget => ?_
  rw [filePath, Disk.find_join (h.differ.opens hopens) hkotlin, Disk.find_join hopens hkotlin, hget]

/-- A dump that is reached and can be parsed is converted. -/
theorem Refreshed.read_reached (hclean : result = .ok clean) (hstem : stem ∈ stems)
    (hread : disk.read (filePath folder stem dumpExtension) = .ok text)
    (hparse : Conversion.ofText settings (filePath folder stem dumpExtension) text =
      .ok conversion) :
    after.read (filePath folder stem kotlinExtension) = .ok (conversion.source settings) ∧
      after.time? (filePath folder stem kotlinExtension) = some now := by
  rcases h.finished clean hclean stem hstem with ⟨other, error, hother, herror⟩ | hwritten
  · obtain rfl := Except.ok.inj (hread.symm.trans hother)
    rw [hparse] at herror
    cases herror
  · obtain ⟨other, found, hother, hfound, hkotlin⟩ :=
      hwritten.found hopens (h.differ.opens hopens) hname
    obtain rfl := Except.ok.inj (hread.symm.trans hother)
    obtain rfl := Except.ok.inj (hparse.symm.trans hfound)
    exact hkotlin

end Names

theorem Refreshed.get?_file (h : Refreshed settings now folder place stems disk after result)
    (hopens : disk.Opens folder place)
    (hnames : ∀ stem ∈ stems, IsName (fileName stem dumpExtension))
    (hother : ∀ stem ∈ stems, disk.resolve (filePath folder stem kotlinExtension) ≠ .ok other)
    (content : Content) (time : Nat) :
    after.get? other = some (.file content time) ↔ disk.get? other = some (.file content time) := by
  by_cases hplace : other = place
  · obtain ⟨before, hfolder⟩ := hopens.get?
    obtain ⟨later, hfolder'⟩ := (h.differ.opens hopens).get?
    simp [hplace, hfolder, hfolder']
  · by_cases hmem : ∃ stem ∈ stems, other = place ++ [fileName stem kotlinExtension]
    · obtain ⟨stem, hstem, rfl⟩ := hmem
      have hname := hnames stem hstem
      rcases h.kept stem hname with hget | hwritten
      · rw [hget]
      · refine absurd ?_ (hother stem hstem)
        rw [filePath, Disk.resolve_join hopens (isName_kotlin hname),
          if_pos (hwritten.fits hopens hname)]
    · rw [h.differ.others other hplace]
      intro name hname heq
      obtain ⟨stem, hstem, rfl⟩ := List.mem_map.1 hname
      exact hmem ⟨stem, hstem, heq⟩

/-- After a good end no Kotlin file is outdated. -/
theorem Refreshed.isOutdated_dump
    (h : Refreshed settings now folder place stems disk after (.ok true))
    (hopens : disk.Opens folder place) (hname : IsName (fileName stem dumpExtension))
    (hstem : isOutdated disk (filePath folder stem dumpExtension)
      (filePath folder stem kotlinExtension) = true → stem ∈ stems)
    (htime : ∀ time, disk.time? (filePath folder stem dumpExtension) = some time → time ≤ now) :
    isOutdated after (filePath folder stem dumpExtension)
      (filePath folder stem kotlinExtension) = false := by
  have hdump : after.time? (filePath folder stem dumpExtension) =
      disk.time? (filePath folder stem dumpExtension) :=
    h.time?_eq hopens hname (dump_ne_kotlin stem)
  have hnew (hnow : after.time? (filePath folder stem kotlinExtension) = some now) :
      isOutdated after (filePath folder stem dumpExtension)
        (filePath folder stem kotlinExtension) = false :=
    isOutdated_eq_false_iff.2 ⟨now, hnow, by rwa [hdump]⟩
  rcases h.find_kotlin hopens hname with hfind | hwritten
  · by_cases hold : isOutdated disk (filePath folder stem dumpExtension)
        (filePath folder stem kotlinExtension) = true
    · -- A dump that has been converted without errors has been parsed.
      obtain ⟨⟨text, conversion, hread, hparse, -⟩, -⟩ := h.clean_iff.1 rfl stem (hstem hold)
      exact hnew (h.read_reached hopens hname rfl (hstem hold) hread hparse).2
    · have hkotlin : after.time? (filePath folder stem kotlinExtension) =
          disk.time? (filePath folder stem kotlinExtension) := by
        rw [Disk.time?, hfind, Disk.time?]
      rwa [isOutdated, hdump, hkotlin, ← isOutdated, ← Bool.not_eq_true]
  · obtain ⟨-, -, -, -, -, hnow⟩ := hwritten.found hopens (h.differ.opens hopens) hname
    exact hnew hnow

theorem Refreshed.ofFolder_eq_empty
    (h : Refreshed settings now folder place stems disk after (.ok true)) (hsound : disk.Sound)
    (hopens : disk.Opens folder place) (hplan : Plan.ofFolder disk folder = .ok plan)
    (hneeds : plan.needsDump = []) (hstems : ∀ stem, stem ∈ stems ↔ disk.IsStale folder stem)
    (htimes : ∀ place content time, disk.get? place = some (.file content time) → time ≤ now) :
    Plan.ofFolder after folder = .ok ⟨[], []⟩ := by
  obtain ⟨time, hfind⟩ := h.differ.opens hopens
  obtain ⟨later, hlater⟩ := Plan.exists_ofFolder_iff.2 ⟨_, hfind⟩
  have hafter := h.sound hsound
  have houtdated : later.outdated = [] := by
    rw [List.eq_nil_iff_forall_not_mem]
    intro pair hpair
    obtain ⟨stem, ⟨hstem, hholds, hold⟩, -⟩ := (Plan.mem_outdated hafter hlater).1 hpair
    have hname := hholds.isName hafter
    rw [h.holds_iff hopens (dump_ne_kotlin stem)] at hholds
    obtain ⟨content, own, hget⟩ := hopens.holds_iff.1 hholds
    have hfresh := h.isOutdated_dump hopens hname
      (fun hold => (hstems stem).2 ⟨hstem, hholds, hold⟩) (by
        intro time htime
        rw [filePath, Disk.time?_join hopens hname, hget] at htime
        split_ifs at htime
        obtain rfl : own = time := by simpa [Entry.time] using htime
        exact htimes _ content own hget)
    rw [hfresh] at hold
    cases hold
  have hdumps : later.needsDump = [] := by
    rw [List.eq_nil_iff_forall_not_mem]
    intro path hpath
    obtain ⟨stem, hstem, rfl⟩ := (Plan.mem_needsDump hafter hlater).1 hpath
    rw [h.needsDump_iff hopens hsound] at hstem
    have hmem := (Plan.mem_needsDump hsound hplan).2 ⟨stem, hstem, rfl⟩
    rw [hneeds] at hmem
    cases hmem
  rw [hlater, ← houtdated, ← hdumps]

theorem Refreshed.outcome {plan : Plan}
    (h : Refreshed settings now folder place stems disk after result) (hsound : disk.Sound)
    (hopens : disk.Opens folder place) (hplan : Plan.ofFolder disk folder = .ok plan)
    (houtdated : plan.outdated = stems.map (Plan.pairOf folder))
    (hstems : ∀ stem, stem ∈ stems ↔ disk.IsStale folder stem) :
    Outcome settings now folder plan disk after (result.map (· && plan.needsDump.isEmpty)) := by
  have hnames : ∀ stem ∈ stems, IsName (fileName stem dumpExtension) := fun stem hstem =>
    ((hstems stem).1 hstem).2.1.isName hsound
  refine ⟨?_, h.differ.folders, ?_, ?_, ?_, ?_⟩
  · intro other hother
    refine h.get?_file hopens hnames fun stem hstem => hother (Plan.pairOf folder stem) ?_
    rw [houtdated]
    exact List.mem_map_of_mem hstem
  · simp only [houtdated, List.forall_mem_map]
    intro stem hstem
    have hname := hnames stem hstem
    refine (h.find_kotlin hopens hname).imp_right fun hwritten => ?_
    obtain ⟨text, conversion, hread, hparse, hkotlin, -⟩ :=
      hwritten.found hopens (h.differ.opens hopens) hname
    exact ⟨text, conversion, hread, hparse, hkotlin⟩
  · simp only [houtdated, List.forall_mem_map, Plan.pairOf]
    intro stem hstem text error hread hparse
    rcases h.find_kotlin hopens (hnames stem hstem) with hfind | ⟨other, conversion, hother, hok, -⟩
    · exact hfind
    · obtain rfl := Except.ok.inj (hread.symm.trans hother)
      rw [hparse] at hok
      cases hok
  · simp only [houtdated, List.forall_mem_map, Plan.pairOf]
    intro clean hclean stem hstem text conversion hread hparse
    cases result with
    | error failure => cases hclean
    | ok own =>
      exact (h.read_reached hopens (hnames stem hstem) rfl hstem hread hparse).1
  · intro htimes hclean
    cases result with
    | error failure => cases hclean
    | ok clean =>
      obtain ⟨rfl, hneeds⟩ : clean = true ∧ plan.needsDump = [] := by
        simpa [Except.map] using hclean
      exact h.ofFolder_eq_empty hsound hopens hplan hneeds hstems htimes

end

/-- Dumps of one folder have Kotlin files of their own. -/
theorem Plan.kotlinOf_injOn (hsound : disk.Sound)
    (h : filesWithExtension disk folder dumpExtension = .ok dumps) :
    ∀ a ∈ dumps, ∀ b ∈ dumps, kotlinOf a = kotlinOf b → a = b := by
  intro a ha b hb heq
  rw [mem_filesWithExtension hsound isExtension_dump.dotless h] at ha hb
  obtain ⟨first, -, hfirst, rfl⟩ := ha
  obtain ⟨second, -, hsecond, rfl⟩ := hb
  rw [kotlinOf_filePath (hfirst.isName hsound), kotlinOf_filePath (hsecond.isName hsound)] at heq
  rw [Path.filePath_injective heq]

/-- The working folder with a dump in it. -/
def Disk.ofDump (text : String) : Disk :=
  (Disk.empty 0).add ["a.swiftASTDump"] (.file (.text text) 1) 1

theorem Disk.Sound.ofDump (text : String) : (Disk.ofDump text).Sound :=
  (Sound.empty 0).add_file ⟨by decide, by decide, by decide, by decide, by decide⟩ (by decide) [] _
    1 1

theorem Disk.holds_ofDump (hdot : '.' ∉ extension.toList)
    (h : (Disk.ofDump text).Holds "." (fileName stem extension)) :
    extension = dumpExtension ∧ stem = "a" := by
  have hopens : (Disk.ofDump text).Opens "." [] := ⟨1, rfl⟩
  obtain ⟨content, time, hget⟩ := hopens.holds_iff.1 h
  by_cases heq : fileName stem extension = fileName "a" dumpExtension
  · have hextension : extension = dumpExtension := by
      by_contra hne
      exact Path.fileName_ne hdot isExtension_dump.dotless hne heq
    subst hextension
    exact ⟨rfl, Path.fileName_injective heq⟩
  · have hname : fileName "a" dumpExtension = "a.swiftASTDump" := by decide
    rw [hname] at heq
    rw [Disk.ofDump, get?_add_of_ne _ 1 (by simpa using heq) (by simp)] at hget
    cases hget

theorem Disk.list_of_find {disk : Disk} (hfind : disk.find folder = .ok (place, .folder time))
    (hfiles : disk.filesIn place = names) : disk.list folder = .ok names := by
  rw [Disk.list, hfind, ← hfiles]
  rfl

theorem Plan.ofFolder_ofDump (text : String) :
    Plan.ofFolder (.ofDump text) "." = .ok ⟨[pairOf "." "a"], []⟩ := by
  have hlist : (Disk.ofDump text).list "." = .ok ["a.swiftASTDump"] :=
    Disk.list_of_find rfl (List.mergeSort_singleton _)
  rw [Plan.ofFolder, filesWithExtension, filesWithExtension, hlist]
  rfl

theorem parse_bare_file : Dump.parse file "(source_file)" = .ok ⟨"source_file", [], [], none⟩ := by
  have hlexes : Dump.Lexes "(source_file)".toList [.opening, .word "source_file", .closing] := by
    rw [Dump.lexes_iff]
    exact ⟨rfl, rfl⟩
  exact Dump.parse_eq_ok_iff_isDump.2 ⟨_, hlexes, .node "source_file" .nil, by decide⟩

theorem updatable_ofDump (h : (Disk.ofDump "(source_file)").IsStale "." stem) :
    Updatable {} "." stem (.ofDump "(source_file)") := by
  obtain ⟨-, rfl⟩ := Disk.holds_ofDump isExtension_dump.dotless h.2.1
  refine ⟨⟨"(source_file)", .ofDump {} ⟨"source_file", [], [], none⟩, rfl, ?_, rfl⟩, ?_⟩
  · exact congrArg (Except.map (Conversion.ofDump {})) parse_bare_file
  · rintro place ⟨time, hfind⟩
    cases hfind

end SwiftToKotlin.Workspace
