import SwiftToKotlin.Proofs.Workspace.Outcome

/-!
# Where an update ends

A dump that cannot be parsed is passed over, but one that cannot be read, or whose Kotlin file cannot
be written, ends the update of its folder. So the dumps in front of the first such dump are
converted, and those behind it keep the Kotlin files that they had, which are outdated still.
-/

namespace SwiftToKotlin.Workspace

open SwiftToKotlin.Path (IsName join fileName filePath)

/-! ## Failures -/

/-- The failure that ends the work at a dump and its Kotlin file. -/
def Job.failure? (settings : Settings) (now : Nat) (disk : Disk) (pair : String × String) :
    Option Failure :=
  match disk.read pair.1 with
  | .error error => some (.read pair.1 error)
  | .ok text =>
    match Conversion.ofText settings pair.1 text with
    | .error _ => none
    | .ok conversion =>
      match disk.write pair.2 (.text (conversion.source settings)) now with
      | .error error => some (.write pair.2 error)
      | .ok _ => none

/-- The dumps and Kotlin files in front of the first failure. -/
def Plan.reached (settings : Settings) (now : Nat) (disk : Disk) (plan : Plan) :
    List (String × String) :=
  plan.outdated.takeWhile fun pair => (Job.failure? settings now disk pair).isNone

section

variable {now : Nat}
  {stems : List String} {disk : Disk} {failure : Failure}

theorem Job.Refreshes.failure?_eq_some_iff
    (h : Job.Refreshes settings now dump kotlin disk result after) :
    Job.failure? settings now disk (dump, kotlin) = some failure ↔ result = .error failure := by
  cases h with
  | unread hread => simp [failure?, hread]
  | unparsed hread hparse => simp [failure?, hread, hparse]
  | unwritten hread hparse hwrite => simp [failure?, hread, hparse, hwrite]
  | written hread hparse hwrite => simp [failure?, hread, hparse, hwrite]

theorem Job.Refreshes.eq_of_error
    (h : Job.Refreshes settings now dump kotlin disk (.error failure) after) : after = disk := by
  cases h with
  | unread => rfl
  | unwritten => rfl

section Names

variable (h : Refreshed settings now folder place stems disk after result)
  (hopens : disk.Opens folder place) (hname : IsName (fileName stem dumpExtension))

include h hopens hname

/-- A file that could be written before can be written after, and for the same reason not. -/
theorem Refreshed.write_eq_error_iff (content : Content) (error) :
    after.write (filePath folder stem kotlinExtension) content now = .error error ↔
      disk.write (filePath folder stem kotlinExtension) content now = .error error := by
  have hkotlin := isName_kotlin hname
  rw [filePath, Disk.write_join_eq_error_iff hopens hkotlin,
    Disk.write_join_eq_error_iff (h.differ.opens hopens) hkotlin, h.differ.folders]

/-- Making Kotlin files leaves the failures at other dumps as they were. -/
theorem Refreshed.failure?_eq :
    Job.failure? settings now after (Plan.pairOf folder stem) =
      Job.failure? settings now disk (Plan.pairOf folder stem) := by
  simp only [Job.failure?, Plan.pairOf, h.read_dump hopens hname]
  cases disk.read (filePath folder stem dumpExtension) with
  | error => rfl
  | ok text =>
    cases hparse : Conversion.ofText settings (filePath folder stem dumpExtension) text with
    | error => simp only [hparse]
    | ok conversion =>
      simp only [hparse]
      have hwrite := h.write_eq_error_iff hopens hname (.text (conversion.source settings))
      cases hdisk : disk.write (filePath folder stem kotlinExtension)
          (.text (conversion.source settings)) now with
      | error error => rw [(hwrite error).2 hdisk]
      | ok =>
        cases hafter : after.write (filePath folder stem kotlinExtension)
            (.text (conversion.source settings)) now with
        | error error =>
          rw [(hwrite error).1 hafter] at hdisk
          cases hdisk
        | ok => rfl

/-- A dump that is not reached is left with an outdated Kotlin file. -/
theorem Refreshed.find_unreached (hstem : stem ∉ stems) (hstale : disk.IsStale folder stem) :
    after.find (filePath folder stem kotlinExtension) =
        disk.find (filePath folder stem kotlinExtension) ∧
      isOutdated after (filePath folder stem dumpExtension)
        (filePath folder stem kotlinExtension) = true := by
  have hkotlin := isName_kotlin hname
  have hnew : fileName stem kotlinExtension ∉ stems.map (fileName · kotlinExtension) := by
    rw [List.mem_map_of_injective fun _ _ => Path.fileName_injective]
    exact hstem
  have hdump := h.time?_eq hopens hname (dump_ne_kotlin stem)
  have htime := h.differ.time?_join hopens hkotlin hnew
  refine ⟨h.differ.find_join hopens hkotlin hnew, ?_⟩
  rw [isOutdated, filePath, filePath, hdump, htime]
  exact hstale.2.2

end Names

/-! ## Making files until a failure -/

theorem map_eq_error_iff {α β : Type} {f : α → β} {outcome : Except Failure α} :
    outcome.map f = .error failure ↔ outcome = .error failure := by
  cases outcome <;> simp [Except.map]

/-- The work is done for the dumps in front of the first failure, and that failure ends it. -/
theorem Job.updateFiles_until_failure (settings : Settings) (now : Nat) (run : Run)
    (hopens : run.disk.Opens folder place)
    (hstems : ∀ stem ∈ stems, IsName (fileName stem dumpExtension))
    (hfailures : ∀ stem ∈ stems,
      failure? settings now run.disk (Plan.pairOf folder stem) = failures stem) :
    let done := (updateFiles settings now (stems.map (Plan.pairOf folder))).exec run
    (∀ failure, done.1 = .error failure ↔ stems.findSome? failures = some failure) ∧
      ∃ clean, Refreshed settings now folder place (stems.takeWhile fun stem =>
        (failures stem).isNone) run.disk done.2.disk (.ok clean) := by
  induction stems generalizing run with
  | nil =>
    refine ⟨fun failure => iff_of_false ?_ ?_, true, .nil⟩
    · exact fun h => by cases h
    · exact fun h => by cases h
  | cons stem rest ih =>
    rw [List.forall_mem_cons] at hstems hfailures
    have hstep := updateFile_refreshes settings now (filePath folder stem dumpExtension)
      (filePath folder stem kotlinExtension) run
    have hfailure (failure : Failure) :
        failures stem = some failure ↔ ((updateFile settings now (filePath folder stem dumpExtension)
          (filePath folder stem kotlinExtension)).exec run).1 = .error failure := by
      rw [← hfailures.1]
      exact hstep.failure?_eq_some_iff
    simp only [List.map_cons, Plan.pairOf, Job.updateFiles]
    cases hdone : (updateFile settings now (filePath folder stem dumpExtension)
      (filePath folder stem kotlinExtension)).exec run with
    | mk result later =>
      rw [hdone] at hstep hfailure
      cases result with
      | error failure =>
        have hsome : failures stem = some failure := (hfailure failure).2 rfl
        rw [exec_bind_error hdone, List.findSome?_cons, List.takeWhile_cons, hsome]
        exact ⟨fun other => by simp, true, hstep.eq_of_error ▸ .nil⟩
      | ok clean =>
        have hnone : failures stem = none := by
          rw [Option.eq_none_iff_forall_ne_some]
          intro failure hsome
          cases (hfailure failure).1 hsome
        have hfirst := hstep.refreshed hopens hstems.1
        obtain ⟨herror, restClean, hrest⟩ := ih later (hfirst.differ.opens hopens) hstems.2
          fun other hother => (hfirst.failure?_eq hopens (hstems.2 other hother)).trans
            (hfailures.2 other hother)
        rw [exec_bind_ok hdone, exec_bind_pure, List.findSome?_cons, List.takeWhile_cons, hnone]
        refine ⟨fun failure => ?_, _, hfirst.cons_ok hopens hstems.1 (fun other hother => ?_) hrest⟩
        · rw [← herror failure]
          exact map_eq_error_iff
        · exact hstems.2 other ((List.takeWhile_sublist _).subset hother)

end

/-! ## Updating a folder until a failure -/

section

variable {folder : String} {plan : Plan} (settings : Settings) (now : Nat) (run : Run)

/-- A dump that cannot be read or a Kotlin file that cannot be written ends the update of a folder.
The dumps in front of the first failure are converted if they can be parsed. The Kotlin files of
those behind it are left as they were, and are outdated still. -/
theorem Job.updateFolder_until_failure (hsound : run.disk.Sound)
    (hplan : Plan.ofFolder run.disk folder = .ok plan) :
    let done := (updateFolder settings now folder).exec run
    (∀ failure, done.1 = .error failure ↔
      plan.outdated.findSome? (failure? settings now run.disk) = some failure) ∧
    (∀ pair ∈ plan.reached settings now run.disk, ∀ text conversion,
      run.disk.read pair.1 = .ok text → Conversion.ofText settings pair.1 text = .ok conversion →
      done.2.disk.read pair.2 = .ok (conversion.source settings) ∧
        done.2.disk.time? pair.2 = some now) ∧
    (∀ pair ∈ plan.outdated, pair ∉ plan.reached settings now run.disk →
      done.2.disk.find pair.2 = run.disk.find pair.2 ∧
        isOutdated done.2.disk pair.1 pair.2 = true) := by
  obtain ⟨stderr, hdone⟩ := exec_updateFolder_ok settings now run hplan
  rw [hdone]
  by_cases hopens : ∃ place, run.disk.Opens folder place
  · obtain ⟨place, hopens⟩ := hopens
    obtain ⟨stems, houtdated, hstems⟩ := Plan.exists_stems hsound hplan
    have hnames : ∀ stem ∈ stems, IsName (fileName stem dumpExtension) := fun stem hstem =>
      ((hstems stem).1 hstem).2.1.isName hsound
    obtain ⟨herror, clean, hrefreshed⟩ := updateFiles_until_failure settings now
      { run with stderr } hopens hnames fun _ _ => rfl
    have hreached : plan.reached settings now run.disk = (stems.takeWhile fun stem =>
        (failure? settings now run.disk (Plan.pairOf folder stem)).isNone).map
          (Plan.pairOf folder) := by
      rw [Plan.reached, houtdated, List.takeWhile_map]
      rfl
    simp only [hreached, houtdated, List.forall_mem_map, map_eq_error_iff]
    refine ⟨fun failure => ?_, fun stem hstem text conversion hread hparse => ?_,
      fun stem hstem hnot => ?_⟩
    · rw [herror failure, List.findSome?_map]
      rfl
    · have hname := hnames stem ((List.takeWhile_sublist _).subset hstem)
      exact hrefreshed.read_reached hopens hname rfl hstem hread hparse
    · refine hrefreshed.find_unreached hopens (hnames stem hstem) (fun hmem => hnot ?_)
        ((hstems stem).1 hstem)
      exact List.mem_map_of_mem hmem
  · rw [not_exists] at hopens
    obtain rfl := Plan.eq_empty_of_file run hsound hplan hopens
    refine ⟨fun failure => iff_of_false ?_ ?_, ?_, ?_⟩
    · exact fun h => by cases h
    · exact fun h => by cases h
    · simp [Plan.reached]
    · simp

end

/-! ## A dump that is no text -/

/-- The working folder with a dump that is no text between two that can be converted. -/
def Disk.withUnreadable : Disk :=
  (((Disk.empty 0).add ["c.swiftASTDump"] (.file (.text "(source_file)") 1) 1).add
    ["b.swiftASTDump"] (.file (.bytes [255]) 1) 1).add
    ["a.swiftASTDump"] (.file (.text "(source_file)") 1) 1

theorem Disk.Sound.withUnreadable : Disk.withUnreadable.Sound := by
  have hc := (Sound.empty 0).add_file ⟨by decide, by decide, by decide, by decide, by decide⟩
    (by decide : "c.swiftASTDump".utf8ByteSize ≤ maxNameSize) [] (.text "(source_file)") 1 1
  have hb := hc.add_file ⟨by decide, by decide, by decide, by decide, by decide⟩
    (by decide : "b.swiftASTDump".utf8ByteSize ≤ maxNameSize) [] (.bytes [255]) 1 1
  exact hb.add_file ⟨by decide, by decide, by decide, by decide, by decide⟩
    (by decide : "a.swiftASTDump".utf8ByteSize ≤ maxNameSize) [] (.text "(source_file)") 1 1

theorem Plan.ofFolder_withUnreadable :
    Plan.ofFolder .withUnreadable "." = .ok ⟨["a", "b", "c"].map (pairOf "."), []⟩ := by
  have hlist : Disk.withUnreadable.list "." =
      .ok ["a.swiftASTDump", "b.swiftASTDump", "c.swiftASTDump"] :=
    Disk.list_of_find rfl (List.mergeSort_of_pairwise (by decide))
  rw [Plan.ofFolder, filesWithExtension, filesWithExtension, hlist]
  rfl

theorem ofText_bare_file :
    Conversion.ofText {} file "(source_file)" = .ok (.ofDump {} ⟨"source_file", [], [], none⟩) :=
  congrArg (Except.map (Conversion.ofDump {})) parse_bare_file

/-- The dumps that are text can be converted, and their Kotlin files written. -/
theorem failure?_withUnreadable :
    let failure? stem := Job.failure? {} 2 .withUnreadable (Plan.pairOf "." stem)
    failure? "a" = none ∧ failure? "b" = some (.read "./b.swiftASTDump" .notText) ∧
      failure? "c" = none := by
  have hnone (stem : String) (h : stem = "a" ∨ stem = "c") :
      Job.failure? {} 2 .withUnreadable (Plan.pairOf "." stem) = none := by
    rcases h with rfl | rfl <;> rfl
  exact ⟨hnone "a" (by simp), rfl, hnone "c" (by simp)⟩

theorem Plan.reached_withUnreadable :
    Plan.reached {} 2 .withUnreadable ⟨["a", "b", "c"].map (pairOf "."), []⟩ = [pairOf "." "a"] := by
  obtain ⟨hfirst, hsecond, -⟩ := failure?_withUnreadable
  simp [reached, hfirst, hsecond]

/-- The first dump is converted, and the third one is not since the second cannot be read. -/
theorem updateFolder_until_unreadable :
    Disk.withUnreadable.Sound ∧
      Plan.ofFolder .withUnreadable "." = .ok ⟨["a", "b", "c"].map (Plan.pairOf "."), []⟩ ∧
      let done := (Job.updateFolder {} 2 ".").exec { disk := .withUnreadable }
      done.1 = .error (.read "./b.swiftASTDump" .notText) ∧
        done.2.disk.read "./a.kt" =
          .ok ((Conversion.ofDump {} ⟨"source_file", [], [], none⟩).source {}) ∧
        isOutdated done.2.disk "./c.swiftASTDump" "./c.kt" = true := by
  obtain ⟨hfirst, hsecond, -⟩ := failure?_withUnreadable
  obtain ⟨herror, hreached, hunreached⟩ := Job.updateFolder_until_failure {} 2
    { disk := .withUnreadable } .withUnreadable Plan.ofFolder_withUnreadable
  refine ⟨.withUnreadable, Plan.ofFolder_withUnreadable, (herror _).2 ?_, ?_, ?_⟩
  · simp [hfirst, hsecond]
  · rw [Plan.reached_withUnreadable, List.forall_mem_singleton] at hreached
    exact (hreached _ _ rfl ofText_bare_file).1
  · rw [Plan.reached_withUnreadable] at hunreached
    exact (hunreached (Plan.pairOf "." "c") (by simp) (by decide)).2

/-- The third dump can be converted and its Kotlin file can be written, but it is not. -/
theorem updateFolder_skips_convertible :
    let done := (Job.updateFolder {} 2 ".").exec { disk := .withUnreadable }
    Plan.ofFolder .withUnreadable "." = .ok ⟨["a", "b", "c"].map (Plan.pairOf "."), []⟩ ∧
      Disk.withUnreadable.read "./c.swiftASTDump" = .ok "(source_file)" ∧
      Conversion.ofText {} "./c.swiftASTDump" "(source_file)" =
        .ok (.ofDump {} ⟨"source_file", [], [], none⟩) ∧
      Job.failure? {} 2 .withUnreadable ("./c.swiftASTDump", "./c.kt") = none ∧
      done.2.disk.find "./c.kt" = .error .missing := by
  have hopens : Disk.withUnreadable.Opens "." [] := ⟨1, rfl⟩
  obtain ⟨hfirst, hsecond, hthird⟩ := failure?_withUnreadable
  obtain ⟨stderr, hdone⟩ := Job.exec_updateFolder_ok {} 2 { disk := .withUnreadable }
    Plan.ofFolder_withUnreadable
  have hname (name : String) {content : Content}
      (hget : Disk.withUnreadable.get? ([] ++ [name]) = some (.file content 1)) : IsName name :=
    (Disk.Sound.withUnreadable.isName hget).1
  have hnames : ∀ stem ∈ ["a", "b", "c"], IsName (fileName stem dumpExtension) := by
    rw [List.forall_mem_cons, List.forall_mem_cons, List.forall_mem_singleton]
    exact ⟨hname _ rfl, hname _ rfl, hname _ rfl⟩
  obtain ⟨-, clean, hrefreshed⟩ := Job.updateFiles_until_failure {} 2
    { disk := .withUnreadable, stderr } hopens hnames fun _ _ => rfl
  have hunreached : "c" ∉ ["a", "b", "c"].takeWhile fun stem =>
      (Job.failure? {} 2 .withUnreadable (Plan.pairOf "." stem)).isNone := by
    simp [hfirst, hsecond]
  have hfind := (hrefreshed.find_unreached hopens (hnames "c" (by simp)) hunreached
    ⟨by decide, hopens.holds_iff.2 ⟨_, _, rfl⟩, rfl⟩).1
  have hkotlin : filePath "." "c" kotlinExtension = "./c.kt" := by decide
  have hmissing : Disk.withUnreadable.find "./c.kt" = .error .missing := rfl
  refine ⟨Plan.ofFolder_withUnreadable, rfl, ofText_bare_file, hthird, ?_⟩
  rw [hkotlin, hmissing] at hfind
  simpa only [hdone] using hfind

end SwiftToKotlin.Workspace
