import SwiftToKotlin.Proofs.Workspace.Outcome

/-!
# The exit code of an update

The exit code is zero if all that the update has looked at is in order. A dump with errors is looked
at only until its Kotlin file has been written.
-/

namespace SwiftToKotlin.Workspace

open SwiftToKotlin.Path (IsName IsExtension join fileName filePath)

namespace Job

theorem exec_contained_ok (h : job.exec run = (.ok clean, later)) :
    (contained job).exec run = (.ok clean, later) := by
  rw [exec] at h
  rw [exec, contained, ExceptT.run_tryCatch, StateT.run_bind, h]
  rfl

theorem exec_contained_error {failure : Failure} (h : job.exec run = (.error failure, later)) :
    ∃ stderr, (contained job).exec run = (.ok false, { later with stderr }) := by
  rw [exec] at h
  rw [exec, contained, ExceptT.run_tryCatch, StateT.run_bind, h]
  exact ⟨_, rfl⟩

end Job

/-- The exit code for one folder tells whether it was updated to a good end. -/
theorem Command.run_update (settings : Settings) (now : Nat) (disk : Disk) (folder : String) :
    ((Command.run settings now disk (.update [folder])).1 = 0 ↔
      ((Job.updateFolder settings now folder).exec { disk }).1 = .ok true) ∧
    (Command.run settings now disk (.update [folder])).2.disk =
      ((Job.updateFolder settings now folder).exec { disk }).2.disk := by
  have hrun {clean : Bool} {later : Run}
      (h : (Job.contained (Job.updateFolder settings now folder)).exec { disk } =
        (.ok clean, later)) :
      Command.run settings now disk (.update [folder]) = (if clean then 0 else 1, later) := by
    have hfolders : (Job.ofCommand settings now (.update [folder])).exec { disk } =
        (.ok (clean && true), later) := by
      rw [Job.ofCommand, Job.updateFolders, Job.exec_bind_ok h]
      rfl
    rw [Job.exec] at hfolders
    rw [Command.run, hfolders]
    cases clean <;> rfl
  cases hdone : (Job.updateFolder settings now folder).exec { disk } with
  | mk result later =>
    cases result with
    | error failure =>
      obtain ⟨stderr, hcontained⟩ := Job.exec_contained_error hdone
      simp [hrun hcontained]
    | ok clean =>
      rw [hrun (Job.exec_contained_ok hdone)]
      cases clean <;> simp

/-- Every Swift file of the folder has a dump that is not older. -/
def Disk.IsDumped (disk : Disk) (folder : String) : Prop :=
  ∀ stem, stem ≠ "" → disk.Holds folder (fileName stem swiftExtension) →
    ∃ own time, disk.time? (filePath folder stem swiftExtension) = some own ∧
      disk.time? (filePath folder stem dumpExtension) = some time ∧ own ≤ time

/-- Besides, every dump of the folder is converted without errors. -/
structure Disk.IsClean (settings : Settings) (disk : Disk) (folder : String) : Prop where
  dumped : disk.IsDumped folder
  converted : ∀ stem, stem ≠ "" → disk.Holds folder (fileName stem dumpExtension) →
    ConvertsCleanly settings disk (filePath folder stem dumpExtension)

theorem Disk.isDumped_iff {disk : Disk} (hsound : disk.Sound) :
    disk.IsDumped folder ↔ ∀ stem, ¬ disk.NeedsDump folder stem := by
  have hfresh (stem : String) (hholds : disk.Holds folder (fileName stem swiftExtension)) :
      isOutdated disk (filePath folder stem swiftExtension)
          (filePath folder stem dumpExtension) = false ↔
        ∃ own time, disk.time? (filePath folder stem swiftExtension) = some own ∧
          disk.time? (filePath folder stem dumpExtension) = some time ∧ own ≤ time := by
    have hname := hholds.isName hsound
    obtain ⟨place, content, own, hopens, hget⟩ := hholds
    rw [isOutdated_eq_false_iff, filePath, filePath, time?_join hopens hname,
      time?_join hopens (hname.fileName isExtension_dump), hget]
    by_cases hfits : Fits folder (fileName stem dumpExtension)
    · have hswift : Fits folder (fileName stem swiftExtension) := hfits.fileName (by decide)
      rw [if_pos hfits, if_pos hswift]
      simp
    · simp [hfits]
  constructor
  · rintro h stem ⟨hstem, hholds, hold⟩
    rw [(hfresh stem hholds).2 (h stem hstem hholds)] at hold
    cases hold
  · intro h stem hstem hholds
    refine (hfresh stem hholds).1 ?_
    rw [← Bool.not_eq_true]
    exact fun hold => h stem ⟨hstem, hholds, hold⟩

theorem Plan.needsDump_eq_nil_iff (hsound : disk.Sound) (h : Plan.ofFolder disk folder = .ok plan) :
    plan.needsDump = [] ↔ disk.IsDumped folder := by
  rw [Disk.isDumped_iff hsound, List.eq_nil_iff_forall_not_mem]
  simp only [mem_needsDump hsound h, not_exists, not_and]
  exact ⟨fun hnone stem hstem => hnone _ stem hstem rfl, fun hnone _ stem hstem =>
    absurd hstem (hnone stem)⟩

/-- The dumps that the update has passed over decide whether the folder is clean. -/
theorem Job.updateFolder_isClean_iff (settings : Settings) (now : Nat) (folder : String)
    (run : Run) {plan : Plan} (hsound : run.disk.Sound)
    (hplan : Plan.ofFolder run.disk folder = .ok plan)
    (h : ((updateFolder settings now folder).exec run).1 = .ok true) :
    Disk.IsClean settings ((updateFolder settings now folder).exec run).2.disk folder ↔
      ∀ stem, stem ≠ "" → run.disk.Holds folder (fileName stem dumpExtension) →
        ¬ run.disk.IsStale folder stem →
        ConvertsCleanly settings run.disk (filePath folder stem dumpExtension) := by
  obtain ⟨hneeds, hupdatable⟩ := (updateFolder_eq_ok_true_iff settings now run hsound hplan).1 h
  have hdumped := (Plan.needsDump_eq_nil_iff hsound hplan).1 hneeds
  rcases updateFolder_cases settings now run hsound hplan with
    ⟨place, stems, result, hopens, -, hstems, hdone, -⟩ | ⟨hfile, -, -, hdisk⟩
  · have hholds (stem : String) := hdone.holds_iff hopens (dump_ne_kotlin stem)
    constructor
    · intro hclean stem hstem hdump _
      have hconverts := hclean.converted stem hstem ((hholds stem).2 hdump)
      exact (hdone.convertsCleanly_iff hopens (hdump.isName hsound)).1 hconverts
    · intro hpassed
      refine ⟨(Disk.isDumped_iff (hdone.sound hsound)).2 fun stem => ?_, fun stem hstem hdump => ?_⟩
      · rw [hdone.needsDump_iff hopens hsound]
        exact (Disk.isDumped_iff hsound).1 hdumped stem
      · rw [hholds stem] at hdump
        rw [hdone.convertsCleanly_iff hopens (hdump.isName hsound)]
        by_cases hstale : run.disk.IsStale folder stem
        · exact (hupdatable stem hstale).1
        · exact hpassed stem hstem hdump hstale
  · have hnone (name : String) : ¬ run.disk.Holds folder name := by
      rintro ⟨place, -, -, hopens, -⟩
      exact hfile place hopens
    rw [hdisk]
    exact ⟨fun _ stem _ hdump => absurd hdump (hnone _), fun _ =>
      ⟨hdumped, fun stem _ hdump => absurd hdump (hnone _)⟩⟩

/-- An update of a folder ends with zero if the folder can be listed, its Swift files have dumps
that are not older, and its outdated dumps become Kotlin files without errors. Dumps with a Kotlin
file that is not older are not looked at, and it is these that decide whether the folder is clean
then. -/
theorem Command.update_code_eq_zero_iff (settings : Settings) (now : Nat) (folder : String)
    {disk : Disk} (hsound : disk.Sound) :
    let done := Command.run settings now disk (.update [folder])
    (done.1 = 0 ↔ (∃ found, disk.find folder = .ok found) ∧ disk.IsDumped folder ∧
      ∀ stem, disk.IsStale folder stem → Updatable settings folder stem disk) ∧
    (done.1 = 0 → (Disk.IsClean settings done.2.disk folder ↔
      ∀ stem, stem ≠ "" → disk.Holds folder (fileName stem dumpExtension) →
        ¬ disk.IsStale folder stem →
        ConvertsCleanly settings disk (filePath folder stem dumpExtension))) := by
  obtain ⟨hcode, hdisk⟩ := Command.run_update settings now disk folder
  dsimp only
  rw [← Plan.exists_ofFolder_iff, hcode, hdisk]
  cases hplan : Plan.ofFolder disk folder with
  | error error => simp [Job.exec_updateFolder_error settings now { disk } hplan]
  | ok plan =>
    refine ⟨?_, Job.updateFolder_isClean_iff settings now folder { disk } hsound hplan⟩
    rw [Job.updateFolder_eq_ok_true_iff settings now { disk } hsound hplan,
      Plan.needsDump_eq_nil_iff hsound hplan]
    simp

theorem update_code_of_one_dump :
    (Disk.ofDump "(source_file)").Sound ∧
      let done := Command.run {} 2 (.ofDump "(source_file)") (.update ["."])
      done.1 = 0 ∧ Disk.IsClean {} done.2.disk "." := by
  have hsound := Disk.Sound.ofDump "(source_file)"
  obtain ⟨hcode, hclean⟩ := Command.update_code_eq_zero_iff {} 2 "." hsound
  have hdumped : (Disk.ofDump "(source_file)").IsDumped "." := by
    intro stem _ hholds
    have hdump := (Disk.holds_ofDump isExtension_swift.dotless hholds).1
    exact absurd hdump (by decide)
  have hzero := hcode.2 ⟨⟨_, rfl⟩, hdumped, fun stem => updatable_ofDump⟩
  refine ⟨hsound, hzero, (hclean hzero).2 fun stem hstem hholds hfresh => absurd ?_ hfresh⟩
  obtain ⟨-, rfl⟩ := Disk.holds_ofDump isExtension_dump.dotless hholds
  exact ⟨hstem, hholds, rfl⟩

/-- A dump with an error, and its Kotlin file, which is newer. -/
def Disk.withErrors : Disk :=
  (Disk.ofDump "(source_file (defer_stmt (brace_stmt)))").add ["a.kt"] (.file (.text "") 2) 2

theorem Plan.ofFolder_withErrors : Plan.ofFolder .withErrors "." = .ok ⟨[], []⟩ := by
  have hlist : Disk.withErrors.list "." = .ok ["a.kt", "a.swiftASTDump"] :=
    Disk.list_of_find rfl (List.mergeSort_of_pairwise (by decide))
  rw [Plan.ofFolder, filesWithExtension, filesWithExtension, hlist]
  rfl

theorem parse_deferring_file :
    Dump.parse "./a.swiftASTDump" "(source_file (defer_stmt (brace_stmt)))" =
      .ok ⟨"source_file", [],
        [⟨"defer_stmt", [], [⟨"brace_stmt", [], [], none⟩], none⟩], none⟩ := by
  have hlexes : Dump.Lexes "(source_file (defer_stmt (brace_stmt)))".toList
      [.opening, .word "source_file", .opening, .word "defer_stmt", .opening, .word "brace_stmt",
        .closing, .closing, .closing] := by
    rw [Dump.lexes_iff]
    exact ⟨rfl, rfl⟩
  refine Dump.parse_eq_ok_iff_isDump.2 ⟨_, hlexes, ?_, by decide⟩
  exact .node "source_file" (.cons (.node "defer_stmt" (.cons (.node "brace_stmt" .nil) .nil)) .nil)

/-- The exit code is zero although a dump of the folder cannot be converted without errors. -/
theorem update_passes_over_errors :
    let done := Command.run {} 3 .withErrors (.update ["."])
    done.1 = 0 ∧ ¬ Disk.IsClean {} done.2.disk "." := by
  obtain ⟨hcode, hdisk⟩ := Command.run_update {} 3 .withErrors "."
  obtain ⟨stderr, hdone⟩ :=
    Job.exec_updateFolder_ok {} 3 { disk := .withErrors } Plan.ofFolder_withErrors
  refine ⟨hcode.2 ?_, ?_⟩
  · rw [hdone]
    rfl
  · rw [hdisk, hdone]
    intro hclean
    have hholds : Disk.withErrors.Holds "." (fileName "a" dumpExtension) :=
      ⟨[], _, 1, ⟨2, rfl⟩, rfl⟩
    obtain ⟨text, conversion, hread, hparse, herrors⟩ := hclean.converted "a" (by decide) hholds
    have hown : Disk.withErrors.read (filePath "." "a" dumpExtension) =
        .ok "(source_file (defer_stmt (brace_stmt)))" := rfl
    obtain rfl := Except.ok.inj (hown.symm.trans hread)
    have hfound := congrArg (Except.map (Conversion.ofDump {})) parse_deferring_file
    obtain rfl := Except.ok.inj (hfound.symm.trans hparse)
    exact absurd herrors (by decide)

end SwiftToKotlin.Workspace
