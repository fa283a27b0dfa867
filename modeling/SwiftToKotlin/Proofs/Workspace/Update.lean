import SwiftToKotlin.Proofs.Workspace.Plans
import SwiftToKotlin.Workspace.Command

/-!
# Making Kotlin files anew

A job reads the disk, may write one file, and prints. What making one Kotlin file can come to is
said once, and what holds after each of the outdated files of a folder is carried from one file to
the next: the folders, dumps and Swift files stay, and a Kotlin file is kept or holds what its dump
was converted to.
-/

namespace SwiftToKotlin.Workspace

open SwiftToKotlin.Path (IsName IsExtension join fileName filePath)

namespace Job

variable {α β : Type}

/-! ## Running jobs -/

/-- What a job comes to, and what it has done. -/
def exec (job : Job α) (run : Run) : Except Failure α × Run :=
  (ExceptT.run job).run run

theorem exec_bind_ok (h : job.exec run = (.ok value, later)) :
    exec (job >>= next) run = (next value).exec later := by
  rw [exec] at h
  rw [exec, ExceptT.run_bind, StateT.run_bind, h]
  rfl

theorem exec_bind_error {next : α → Job β} {failure : Failure}
    (h : job.exec run = (.error failure, later)) :
    exec (job >>= next) run = (.error failure, later) := by
  rw [exec] at h
  rw [exec, ExceptT.run_bind, StateT.run_bind, h]
  rfl

theorem exec_bind_pure (job : Job α) (f : α → β) (run : Run) :
    exec (job >>= fun value => pure (f value)) run =
      ((job.exec run).1.map f, (job.exec run).2) := by
  cases h : job.exec run with
  | mk result later =>
    cases result with
    | error failure => exact exec_bind_error h
    | ok value => exact exec_bind_ok h

theorem exec_get (run : Run) : exec (get : Job Run) run = (.ok run, run) :=
  rfl

theorem exec_print (text : String) (run : Run) :
    (print text).exec run = (.ok (), { run with stdout := run.stdout ++ text }) :=
  rfl

theorem exec_complain (line : String) (run : Run) :
    (complain line).exec run = (.ok (), { run with stderr := run.stderr ++ line ++ "\n" }) :=
  rfl

theorem exec_forM_complain {γ : Type} (line : γ → String) (items : List γ) (run : Run) :
    ∃ stderr, exec (items.forM fun item => complain (line item)) run =
      (.ok (), { run with stderr }) := by
  induction items generalizing run with
  | nil => exact ⟨run.stderr, rfl⟩
  | cons item rest ih =>
    obtain ⟨stderr, hrest⟩ := ih { run with stderr := run.stderr ++ line item ++ "\n" }
    refine ⟨stderr, ?_⟩
    rw [List.forM, exec_bind_ok (exec_complain _ run), hrest]

theorem exec_readText_ok (h : run.disk.read path = .ok text) :
    (readText path).exec run = (.ok text, run) := by
  rw [readText, exec_bind_ok (exec_get run), h]
  rfl

theorem exec_readText_error (h : run.disk.read path = .error error) :
    (readText path).exec run = (.error (.read path error), run) := by
  rw [readText, exec_bind_ok (exec_get run), h]
  rfl

theorem exec_writeText_ok (h : run.disk.write path (.text text) now = .ok disk) :
    (writeText now path text).exec run =
      (.ok (), { run with disk, written := run.written ++ [path] }) := by
  rw [writeText, exec_bind_ok (exec_get run), h]
  rfl

theorem exec_writeText_error (h : run.disk.write path (.text text) now = .error error) :
    (writeText now path text).exec run = (.error (.write path error), run) := by
  rw [writeText, exec_bind_ok (exec_get run), h]
  rfl

/-- What making a Kotlin file anew comes to, and the disk after it. -/
inductive Refreshes (settings : Settings) (now : Nat) (dump kotlin : String) (disk : Disk) :
    Except Failure Bool → Disk → Prop
  | unread (hread : disk.read dump = .error error) :
    Refreshes settings now dump kotlin disk (.error (.read dump error)) disk
  | unparsed (hread : disk.read dump = .ok text)
    (hparse : Conversion.ofText settings dump text = .error error) :
    Refreshes settings now dump kotlin disk (.ok false) disk
  | unwritten (hread : disk.read dump = .ok text)
    (hparse : Conversion.ofText settings dump text = .ok conversion)
    (hwrite : disk.write kotlin (.text (conversion.source settings)) now = .error error) :
    Refreshes settings now dump kotlin disk (.error (.write kotlin error)) disk
  | written (hread : disk.read dump = .ok text)
    (hparse : Conversion.ofText settings dump text = .ok conversion)
    (hwrite : disk.write kotlin (.text (conversion.source settings)) now = .ok after) :
    Refreshes settings now dump kotlin disk (.ok !conversion.hasErrors) after

theorem updateFile_refreshes (settings : Settings) (now : Nat) (dump kotlin : String) (run : Run) :
    Refreshes settings now dump kotlin run.disk
      ((updateFile settings now dump kotlin).exec run).1
      ((updateFile settings now dump kotlin).exec run).2.disk := by
  rw [updateFile, exec_bind_ok (exec_print _ run)]
  generalize hprinted : ({ run with stdout := _ } : Run) = printed
  have hdisk : printed.disk = run.disk := by rw [← hprinted]
  rw [← hdisk]
  cases hread : printed.disk.read dump with
  | error error =>
    rw [exec_bind_error (exec_readText_error hread)]
    exact .unread hread
  | ok text =>
    rw [exec_bind_ok (exec_readText_ok hread)]
    cases hparse : Conversion.ofText settings dump text with
    | error error => exact .unparsed hread hparse
    | ok conversion =>
      rw [withParsed]
      cases hwrite : printed.disk.write kotlin (.text (conversion.source settings)) now with
      | error error =>
        rw [exec_bind_error (exec_writeText_error hwrite)]
        exact .unwritten hread hparse hwrite
      | ok after =>
        obtain ⟨stderr, htold⟩ := exec_forM_complain Diagnostic.display conversion.diagnostics
          { printed with disk := after, written := printed.written ++ [kotlin] }
        rw [exec_bind_ok (exec_writeText_ok hwrite), complainAll, exec_bind_ok htold]
        exact .written hread hparse hwrite

end Job

/-! ## Making files anew -/

/-- A dump that can be converted, and without errors. -/
def ConvertsCleanly (settings : Settings) (disk : Disk) (dump : String) : Prop :=
  ∃ text conversion, disk.read dump = .ok text ∧
    Conversion.ofText settings dump text = .ok conversion ∧ conversion.hasErrors = false

/-- A dump that can be read but not parsed. -/
def Unparsable (settings : Settings) (disk : Disk) (dump : String) : Prop :=
  ∃ text error, disk.read dump = .ok text ∧ Conversion.ofText settings dump text = .error error

section

variable {disk : Disk}

/-- After an update the Kotlin file of a dump holds what the dump was converted to. -/
def WrittenFrom (settings : Settings) (now : Nat) (folder : String) (place : Place) (stem : String)
    (disk after : Disk) : Prop :=
  ∃ text conversion, disk.read (filePath folder stem dumpExtension) = .ok text ∧
    Conversion.ofText settings (filePath folder stem dumpExtension) text = .ok conversion ∧
    after.get? (place ++ [fileName stem kotlinExtension]) =
      some (.file (.text (conversion.source settings)) now)

/-- The Kotlin file of a dump can be made without complaints. -/
def Updatable (settings : Settings) (folder stem : String) (disk : Disk) : Prop :=
  ConvertsCleanly settings disk (filePath folder stem dumpExtension) ∧
    ∀ place, ¬ disk.Opens (filePath folder stem kotlinExtension) place

/-- What it comes to to make Kotlin files in a folder anew. -/
structure Refreshed (settings : Settings) (now : Nat) (folder : String) (place : Place)
    (stems : List String) (disk after : Disk) (result : Except Failure Bool) : Prop where
  differ : disk.DifferIn place (stems.map (fileName · kotlinExtension)) after
  sound : disk.Sound → after.Sound
  kept : ∀ stem, IsName (fileName stem dumpExtension) →
    after.get? (place ++ [fileName stem kotlinExtension]) =
      disk.get? (place ++ [fileName stem kotlinExtension]) ∨
    WrittenFrom settings now folder place stem disk after
  finished : ∀ clean, result = .ok clean → ∀ stem ∈ stems,
    Unparsable settings disk (filePath folder stem dumpExtension) ∨
      WrittenFrom settings now folder place stem disk after
  clean_iff : result = .ok true ↔ ∀ stem ∈ stems, Updatable settings folder stem disk

theorem notMem_kotlin (h : ∀ stem, name ≠ fileName stem kotlinExtension) (stems : List String) :
    name ∉ stems.map (fileName · kotlinExtension) := by
  rw [List.mem_map]
  rintro ⟨stem, -, heq⟩
  exact h stem heq.symm

theorem fits_kotlin (h : Disk.Fits folder (fileName stem dumpExtension)) :
    Disk.Fits folder (fileName stem kotlinExtension) :=
  h.fileName (by decide)

theorem isName_kotlin (h : IsName (fileName stem dumpExtension)) :
    IsName (fileName stem kotlinExtension) :=
  h.fileName isExtension_kotlin

/-- Nothing is done to a disk. -/
theorem Refreshed.unchanged (hfinished : ∀ clean, result = .ok clean →
      Unparsable settings disk (filePath folder stem dumpExtension))
    (hresult : result ≠ .ok true) (hstem : ¬ Updatable settings folder stem disk) :
    Refreshed settings now folder place [stem] disk disk result where
  differ := .refl place _ disk
  sound := id
  kept _ _ := .inl rfl
  finished clean hclean other hother := by
    obtain rfl := List.mem_singleton.1 hother
    exact .inl (hfinished clean hclean)
  clean_iff := by simp [hresult, hstem]

theorem not_updatable_of_read
    (hread : disk.read (filePath folder stem dumpExtension) = .ok text) (h : ∀ conversion,
      Conversion.ofText settings (filePath folder stem dumpExtension) text = .ok conversion →
        conversion.hasErrors = true) : ¬ Updatable settings folder stem disk := by
  rintro ⟨⟨other, conversion, hother, hparse, hclean⟩, -⟩
  obtain rfl : text = other := by
    rw [hread] at hother
    exact Except.ok.inj hother
  rw [h conversion hparse] at hclean
  cases hclean

/-- A file can be written where there is no folder. -/
theorem exists_write_kotlin (hopens : disk.Opens folder place)
    (hname : IsName (fileName stem dumpExtension))
    (hfits : Disk.Fits folder (fileName stem kotlinExtension))
    (hfree : ∀ place, ¬ disk.Opens (filePath folder stem kotlinExtension) place)
    (content : Content) (now : Nat) :
    ∃ after, disk.write (filePath folder stem kotlinExtension) content now = .ok after := by
  have hkotlin := isName_kotlin hname
  refine ⟨_, (Disk.write_join_eq_ok_iff hopens hkotlin).2 ⟨hfits, fun time hget => ?_, rfl⟩⟩
  exact hfree _ ((Disk.opens_join_iff hopens hkotlin).2 ⟨hfits, rfl, time, hget⟩)

/-- The Kotlin file is written. -/
theorem Refreshed.written (hopens : disk.Opens folder place)
    (hname : IsName (fileName stem dumpExtension))
    (hread : disk.read (filePath folder stem dumpExtension) = .ok text)
    (hparse : Conversion.ofText settings (filePath folder stem dumpExtension) text = .ok conversion)
    (hwrite : disk.write (filePath folder stem kotlinExtension)
      (.text (conversion.source settings)) now = .ok after) :
    Refreshed settings now folder place [stem] disk after (.ok !conversion.hasErrors) := by
  have hkotlin := isName_kotlin hname
  obtain ⟨hfits, hfolder, rfl⟩ := (Disk.write_join_eq_ok_iff hopens hkotlin).1 hwrite
  have hdiffer := Disk.differIn_add hfolder (.text (conversion.source settings)) now
  have hwritten : WrittenFrom settings now folder place stem disk (disk.add
      (place ++ [fileName stem kotlinExtension]) (.file (.text (conversion.source settings)) now)
      now) :=
    ⟨text, conversion, hread, hparse, Disk.get?_add_self disk _ _ now⟩
  exact {
    differ := hdiffer
    sound := fun hsound => hsound.add_file hkotlin hfits.2 place _ now now
    kept := by
      intro other _
      by_cases heq : other = stem
      · exact .inr (heq ▸ hwritten)
      · refine .inl (hdiffer.get?_of_notMem fun hmem => heq ?_)
        exact Path.fileName_injective (List.mem_singleton.1 hmem)
    finished := by
      intro clean _ other hother
      obtain rfl := List.mem_singleton.1 hother
      exact .inr hwritten
    clean_iff := by
      simp only [Except.ok.injEq, Bool.not_eq_eq_eq_not, Bool.not_true, List.mem_singleton,
        forall_eq]
      constructor
      · intro hclean
        refine ⟨⟨text, conversion, hread, hparse, hclean⟩, fun other hother => ?_⟩
        obtain ⟨-, -, time, hget⟩ := (Disk.opens_join_iff hopens hkotlin).1 hother
        exact hfolder time hget
      · rintro ⟨⟨other, found, hother, hfound, hclean⟩, -⟩
        rw [hread, Except.ok.injEq] at hother
        rw [← hother, hparse, Except.ok.injEq] at hfound
        rw [hfound, hclean] }

/-- Making one file. -/
theorem Job.Refreshes.refreshed (hopens : disk.Opens folder place)
    (hname : IsName (fileName stem dumpExtension))
    (h : Job.Refreshes settings now (filePath folder stem dumpExtension)
      (filePath folder stem kotlinExtension) disk result after) :
    Refreshed settings now folder place [stem] disk after result := by
  cases h with
  | unread hread =>
    refine .unchanged (fun _ h => by cases h) (fun h => by cases h) ?_
    rintro ⟨⟨text, -, hother, -⟩, -⟩
    rw [hread] at hother
    cases hother
  | unparsed hread hparse =>
    refine .unchanged (fun _ _ => ⟨_, _, hread, hparse⟩) (by simp) ?_
    refine not_updatable_of_read hread fun conversion hother => ?_
    rw [hparse] at hother
    cases hother
  | unwritten hread hparse hwrite =>
    refine .unchanged (fun _ h => by cases h) (fun h => by cases h) ?_
    rintro ⟨-, hfree⟩
    have hfits := fits_kotlin ((Disk.read_join_eq_ok_iff hopens hname).1 hread).1
    obtain ⟨after, hok⟩ := exists_write_kotlin hopens hname hfits hfree _ now
    rw [hok] at hwrite
    cases hwrite
  | written hread hparse hwrite => exact .written hopens hname hread hparse hwrite

theorem Refreshed.nil : Refreshed settings now folder place [] disk disk (.ok true) where
  differ := .refl place _ disk
  sound := id
  kept _ _ := .inl rfl
  finished _ _ _ hstem := absurd hstem List.not_mem_nil
  clean_iff := by simp

section Dumps

variable (h : Refreshed settings now folder place stems disk after result)
  (hopens : disk.Opens folder place) (hname : IsName (fileName stem dumpExtension))

include h hopens hname

theorem Refreshed.read_dump :
    after.read (filePath folder stem dumpExtension) =
      disk.read (filePath folder stem dumpExtension) :=
  h.differ.read_join hopens hname (notMem_kotlin (dump_ne_kotlin stem) stems)

theorem Refreshed.unparsable_iff :
    Unparsable settings after (filePath folder stem dumpExtension) ↔
      Unparsable settings disk (filePath folder stem dumpExtension) := by
  rw [Unparsable, h.read_dump hopens hname, Unparsable]

theorem Refreshed.convertsCleanly_iff :
    ConvertsCleanly settings after (filePath folder stem dumpExtension) ↔
      ConvertsCleanly settings disk (filePath folder stem dumpExtension) := by
  rw [ConvertsCleanly, h.read_dump hopens hname, ConvertsCleanly]

theorem Refreshed.updatable_iff :
    Updatable settings folder stem after ↔ Updatable settings folder stem disk := by
  simp only [Updatable, h.convertsCleanly_iff hopens hname, h.differ.opens_iff]

theorem Refreshed.writtenFrom
    (hwritten : WrittenFrom settings now folder place stem after last) :
    WrittenFrom settings now folder place stem disk last := by
  rwa [WrittenFrom, h.read_dump hopens hname] at hwritten

end Dumps

/-- What has been written stays, or is written once more. -/
theorem WrittenFrom.stays (hwritten : WrittenFrom settings now folder place stem disk after)
    (h : Refreshed settings now folder place first disk after begun)
    (hrest : Refreshed settings now folder place stems after last result)
    (hopens : disk.Opens folder place) (hname : IsName (fileName stem dumpExtension)) :
    WrittenFrom settings now folder place stem disk last := by
  rcases hrest.kept stem hname with hlast | hagain
  · obtain ⟨text, conversion, hread, hparse, hafter⟩ := hwritten
    exact ⟨text, conversion, hread, hparse, hlast.trans hafter⟩
  · exact h.writtenFrom hopens hname hagain

/-- After a failure the other files are left alone. -/
theorem Refreshed.cons_error {failure : Failure}
    (h : Refreshed settings now folder place [stem] disk after (.error failure)) :
    Refreshed settings now folder place (stem :: stems) disk after (.error failure) where
  differ := h.differ.mono (by simp)
  sound := h.sound
  kept := h.kept
  finished _ hclean := by cases hclean
  clean_iff := by
    have hstem : ¬ Updatable settings folder stem disk := by simpa using h.clean_iff
    simp [hstem]

/-- Making one file and then others. -/
theorem Refreshed.cons_ok (hopens : disk.Opens folder place)
    (hstem : IsName (fileName stem dumpExtension))
    (hstems : ∀ other ∈ stems, IsName (fileName other dumpExtension))
    (h : Refreshed settings now folder place [stem] disk after (.ok clean))
    (hrest : Refreshed settings now folder place stems after last result) :
    Refreshed settings now folder place (stem :: stems) disk last
      (result.map fun restClean => clean && restClean) where
  differ := h.differ.trans hrest.differ
  sound hsound := hrest.sound (h.sound hsound)
  kept := by
    intro other hname
    rcases h.kept other hname with hafter | hwritten
    · exact (hrest.kept other hname).imp (·.trans hafter) (h.writtenFrom hopens hname)
    · exact .inr (hwritten.stays h hrest hopens hname)
  finished := by
    intro both hboth other hother
    rcases List.mem_cons.1 hother with rfl | hother
    · exact (h.finished clean rfl other (by simp)).imp_right
        fun hwritten => hwritten.stays h hrest hopens hstem
    · have hname := hstems other hother
      cases result with
      | error failure => cases hboth
      | ok restClean =>
        exact (hrest.finished restClean rfl other hother).imp (h.unparsable_iff hopens hname).1
          (h.writtenFrom hopens hname)
  clean_iff := by
    have hfirst : clean = true ↔ Updatable settings folder stem disk := by
      simpa using h.clean_iff
    have hlater : (∀ other ∈ stems, Updatable settings folder other after) ↔
        ∀ other ∈ stems, Updatable settings folder other disk :=
      forall₂_congr fun other hother => h.updatable_iff hopens (hstems other hother)
    rw [List.forall_mem_cons, ← hfirst, ← hlater, ← hrest.clean_iff]
    cases result <;> simp [Except.map]

section Folders

variable (h : Refreshed settings now folder place stems disk after result)
  (hopens : disk.Opens folder place)

include h hopens

theorem Refreshed.holds_iff (hname : ∀ stem, name ≠ fileName stem kotlinExtension) :
    after.Holds folder name ↔ disk.Holds folder name := by
  rw [hopens.holds_iff, (h.differ.opens hopens).holds_iff,
    h.differ.get?_of_notMem (notMem_kotlin hname stems)]

theorem Refreshed.time?_eq (hname : IsName name)
    (hother : ∀ stem, name ≠ fileName stem kotlinExtension) :
    after.time? (join folder name) = disk.time? (join folder name) :=
  h.differ.time?_join hopens hname (notMem_kotlin hother stems)

/-- The Swift files and dumps are what they were. -/
theorem Refreshed.needsDump_iff (hsound : disk.Sound) :
    after.NeedsDump folder stem ↔ disk.NeedsDump folder stem := by
  rw [Disk.NeedsDump, Disk.NeedsDump, h.holds_iff hopens (swift_ne_kotlin stem)]
  refine and_congr_right fun _ => and_congr_right fun hholds => ?_
  have hname := hholds.isName hsound
  rw [isOutdated, filePath, filePath, h.time?_eq hopens hname (swift_ne_kotlin stem),
    h.time?_eq hopens (hname.fileName isExtension_dump) (dump_ne_kotlin stem), isOutdated]

end Folders

/-- Making the Kotlin files of dumps one after the other. -/
theorem Job.updateFiles_refreshed (run : Run) (hopens : run.disk.Opens folder place)
    (hstems : ∀ stem ∈ stems, IsName (fileName stem dumpExtension)) :
    let done := (Job.updateFiles settings now (stems.map (Plan.pairOf folder))).exec run
    Refreshed settings now folder place stems run.disk done.2.disk done.1 := by
  induction stems generalizing run with
  | nil => exact .nil
  | cons stem rest ih =>
    rw [List.forall_mem_cons] at hstems
    have hstep := (updateFile_refreshes settings now (filePath folder stem dumpExtension)
      (filePath folder stem kotlinExtension) run).refreshed hopens hstems.1
    simp only [List.map_cons, Plan.pairOf, Job.updateFiles]
    cases hdone : (updateFile settings now (filePath folder stem dumpExtension)
      (filePath folder stem kotlinExtension)).exec run with
    | mk result later =>
      rw [hdone] at hstep
      cases result with
      | error failure =>
        rw [exec_bind_error hdone]
        exact hstep.cons_error
      | ok clean =>
        rw [exec_bind_ok hdone, exec_bind_pure]
        exact hstep.cons_ok hopens hstems.1 hstems.2 (ih later (hstep.differ.opens hopens) hstems.2)

end

/-! ## Updating a folder -/

section

variable {plan : Plan} (settings : Settings) (now : Nat) (run : Run)

theorem Job.exec_updateFolder_error (h : Plan.ofFolder run.disk folder = .error error) :
    (updateFolder settings now folder).exec run = (.error (.scan error), run) := by
  have hplan : (Job.plan folder).exec run = (.error (.scan error), run) := by
    rw [Job.plan, exec_bind_ok (exec_get run), h]
    rfl
  exact exec_bind_error hplan

theorem Job.exec_updateFolder_ok
    (h : Plan.ofFolder run.disk folder = .ok plan) :
    ∃ stderr, (updateFolder settings now folder).exec run =
      (((updateFiles settings now plan.outdated).exec { run with stderr }).1.map
          (· && plan.needsDump.isEmpty),
        ((updateFiles settings now plan.outdated).exec { run with stderr }).2) := by
  have hplan : (Job.plan folder).exec run = (.ok plan, run) := by
    rw [Job.plan, exec_bind_ok (exec_get run), h]
    rfl
  obtain ⟨stderr, htold⟩ := exec_forM_complain (fun swift =>
    s!"{swift} needs a new dump: run `swiftc -dump-ast` to update {Plan.dumpOf swift}")
    plan.needsDump run
  refine ⟨stderr, ?_⟩
  rw [updateFolder, exec_bind_ok hplan, exec_bind_ok htold, exec_bind_pure]

/-- A path that leads to a file plans for nothing. -/
theorem Plan.eq_empty_of_file (hsound : run.disk.Sound)
    (h : Plan.ofFolder run.disk folder = .ok plan)
    (hfile : ∀ place, ¬ run.disk.Opens folder place) :
    plan = ⟨[], []⟩ := by
  have hnone (name : String) : ¬ run.disk.Holds folder name := by
    rintro ⟨place, -, -, hopens, -⟩
    exact hfile place hopens
  have houtdated : plan.outdated = [] := by
    simp [List.eq_nil_iff_forall_not_mem, mem_outdated hsound h, Disk.IsStale, hnone]
  have hneeds : plan.needsDump = [] := by
    simp [List.eq_nil_iff_forall_not_mem, mem_needsDump hsound h, Disk.NeedsDump, hnone]
  rw [← houtdated, ← hneeds]

/-- Updating a folder makes the outdated Kotlin files, and a path to a file is passed over. -/
theorem Job.updateFolder_cases (hsound : run.disk.Sound)
    (h : Plan.ofFolder run.disk folder = .ok plan) :
    let done := (updateFolder settings now folder).exec run
    (∃ place stems result, run.disk.Opens folder place ∧
      plan.outdated = stems.map (Plan.pairOf folder) ∧
      (∀ stem, stem ∈ stems ↔ run.disk.IsStale folder stem) ∧
      Refreshed settings now folder place stems run.disk done.2.disk result ∧
      done.1 = result.map (· && plan.needsDump.isEmpty)) ∨
    (∀ place, ¬ run.disk.Opens folder place) ∧ plan = ⟨[], []⟩ ∧ done.1 = .ok true ∧
      done.2.disk = run.disk := by
  obtain ⟨stderr, hdone⟩ := exec_updateFolder_ok settings now run h
  rw [hdone]
  by_cases hopens : ∃ place, run.disk.Opens folder place
  · obtain ⟨place, hopens⟩ := hopens
    obtain ⟨stems, houtdated, hstems⟩ := Plan.exists_stems hsound h
    have hnames : ∀ stem ∈ stems, IsName (fileName stem dumpExtension) := fun stem hstem =>
      ((hstems stem).1 hstem).2.1.isName hsound
    rw [houtdated]
    exact .inl ⟨place, stems, _, hopens, rfl, hstems,
      updateFiles_refreshed { run with stderr } hopens hnames, rfl⟩
  · rw [not_exists] at hopens
    obtain rfl := Plan.eq_empty_of_file run hsound h hopens
    exact .inr ⟨hopens, rfl, rfl, rfl⟩

/-- What has to go well for a good end. -/
theorem Job.updateFolder_eq_ok_true_iff (hsound : run.disk.Sound)
    (h : Plan.ofFolder run.disk folder = .ok plan) :
    ((updateFolder settings now folder).exec run).1 = .ok true ↔
      plan.needsDump = [] ∧
        ∀ stem, run.disk.IsStale folder stem → Updatable settings folder stem run.disk := by
  rcases updateFolder_cases settings now run hsound h with
    ⟨place, stems, result, hopens, -, hstems, hdone, hresult⟩ | ⟨hfile, rfl, hresult, -⟩
  · rw [hresult]
    simp only [← hstems, ← hdone.clean_iff]
    cases result <;> simp [Except.map, and_comm]
  · have hnone (stem : String) : ¬ run.disk.IsStale folder stem := by
      rintro ⟨-, ⟨place, -, -, hopens, -⟩, -⟩
      exact hfile place hopens
    simp [hresult, hnone]

end

end SwiftToKotlin.Workspace
