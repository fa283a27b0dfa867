import SwiftToKotlin.Proofs.Workspace.Paths
import SwiftToKotlin.Workspace.Disk

/-!
# Entries of a folder on a disk

What is at the path of a folder joined with a name is the entry of that name, in every operation
that follows paths. Writing such an entry or adding it changes nothing at other names, so that disks
can be compared by the names at which they differ.
-/

namespace SwiftToKotlin.Workspace

open SwiftToKotlin.Path (IsName join)

namespace Disk

variable {disk : Disk}

/-! ## Sound disks -/

/-- A disk with one entry at each place, where the names of files are such as files can have. -/
structure Sound (disk : Disk) : Prop where
  distinct : (disk.entries.map Prod.fst).Nodup
  named : ∀ place content time, disk.get? place = some (.file content time) →
    ∃ folder name, place = folder ++ [name] ∧ IsName name ∧ name.utf8ByteSize ≤ maxNameSize

theorem Sound.isName (h : disk.Sound)
    (hfile : disk.get? (place ++ [name]) = some (.file content time)) :
    IsName name ∧ name.utf8ByteSize ≤ maxNameSize := by
  obtain ⟨folder, own, heq, hname⟩ := h.named _ _ _ hfile
  obtain ⟨-, rfl⟩ := List.append_singleton_inj.1 heq
  exact hname

theorem mem_entries_iff (h : disk.Sound) :
    (place, entry) ∈ disk.entries ↔ disk.get? place = some entry := by
  have hdistinct := h.distinct
  rw [get?]
  generalize disk.entries = entries at hdistinct
  induction entries with
  | nil => simp
  | cons first rest ih =>
    obtain ⟨other, found⟩ := first
    simp only [List.map_cons, List.nodup_cons] at hdistinct
    by_cases hplace : place = other
    · subst hplace
      have hrest : (place, entry) ∉ rest := fun hmem => hdistinct.1 (List.mem_map_of_mem hmem)
      simp [hrest, eq_comm]
    · simp [List.lookup_cons, beq_false_of_ne hplace, hplace, ih hdistinct.2]

theorem nameIn?_eq_some_iff :
    nameIn? folder place = some name ↔ place = folder ++ [name] := by
  rw [nameIn?]
  cases place using List.reverseRecOn with
  | nil => simp
  | append_singleton lead last =>
    split <;> simp_all

/-- A folder holds the files that lie right below its place. -/
theorem mem_filesIn (h : disk.Sound) :
    name ∈ disk.filesIn place ↔
      ∃ content time, disk.get? (place ++ [name]) = some (.file content time) := by
  simp only [filesIn, List.mem_mergeSort, List.mem_filterMap, Prod.exists, mem_entries_iff h]
  constructor
  · rintro ⟨found, entry, hget, hname⟩
    cases entry with
    | folder time => simp [Entry.isFile] at hname
    | file content time =>
      rw [Entry.isFile, if_pos rfl, nameIn?_eq_some_iff] at hname
      exact ⟨content, time, hname ▸ hget⟩
  · rintro ⟨content, time, hget⟩
    exact ⟨_, _, hget, by simp [Entry.isFile, nameIn?_eq_some_iff]⟩

/-! ## Ways -/

theorem walk_append (disk : Disk) (place first second) :
    disk.walk place (first ++ second) =
      (disk.walk place first).bind fun reached => disk.walk reached second := by
  induction first generalizing place with
  | nil => rfl
  | cons part rest ih =>
    simp only [List.cons_append, walk]
    cases disk.enter place part with
    | error error => rfl
    | ok next => exact ih next

theorem resolve_eq (disk : Disk) (path : String) :
    disk.resolve path = (requirePath path).bind fun _ => disk.walk [] (Path.parts path) :=
  rfl

theorem find_of_resolve (h : disk.resolve path = .ok place) :
    disk.find path = (disk.get? place).elim (.error .missing) fun entry => .ok (place, entry) := by
  rw [find, h]
  cases hget : disk.get? place with
  | none => simp [bind, Except.bind, hget, throw, throwThe, MonadExceptOf.throw]
  | some entry => simp [bind, Except.bind, hget, pure, Except.pure]

theorem find_of_resolve_error (h : disk.resolve path = .error error) :
    disk.find path = .error error := by
  rw [find, h]
  rfl

theorem find_eq_ok_iff :
    disk.find path = .ok (place, entry) ↔
      disk.resolve path = .ok place ∧ disk.get? place = some entry := by
  cases hresolve : disk.resolve path with
  | error error => simp [find_of_resolve_error hresolve]
  | ok reached =>
    rw [find_of_resolve hresolve]
    cases hget : disk.get? reached with
    | none =>
      simp only [Option.elim_none, Except.ok.injEq, reduceCtorEq, false_iff, not_and]
      rintro rfl
      simp [hget]
    | some found =>
      simp only [Option.elim_some, Except.ok.injEq, Prod.mk.injEq]
      constructor
      · rintro ⟨rfl, rfl⟩
        exact ⟨rfl, hget⟩
      · rintro ⟨rfl, hentry⟩
        exact ⟨rfl, Option.some.inj (hget.symm.trans hentry)⟩

/-- The path leads to a folder. -/
def Opens (disk : Disk) (path : String) (place : Place) : Prop :=
  ∃ time, disk.find path = .ok (place, .folder time)

theorem Opens.resolve (h : disk.Opens folder place) : disk.resolve folder = .ok place := by
  obtain ⟨time, hfind⟩ := h
  exact (find_eq_ok_iff.1 hfind).1

theorem Opens.get? (h : disk.Opens folder place) :
    ∃ time, disk.get? place = some (.folder time) := by
  obtain ⟨time, hfind⟩ := h
  exact ⟨time, (find_eq_ok_iff.1 hfind).2⟩

theorem requireFolder_eq_ok_iff :
    disk.requireFolder place = .ok () ↔ ∃ time, disk.get? place = some (.folder time) := by
  rw [requireFolder]
  split <;> simp_all

theorem enter_of_folder (h : disk.requireFolder place = .ok ()) (part : String) :
    disk.enter place part =
      if maxNameSize < part.utf8ByteSize then .error .nameTooLong else .ok (step place part) := by
  rw [enter, h]
  by_cases hsize : maxNameSize < part.utf8ByteSize
  · simp [hsize, bind, Except.bind, throw, throwThe, MonadExceptOf.throw]
  · simp [hsize, bind, Except.bind, pure, Except.pure]

theorem step_of_isName (place) (h : IsName name) : step place name = place ++ [name] := by
  simp [step, h.nonempty, h.not_dot, h.not_dots]

theorem requirePath_eq_ok_iff :
    requirePath path = .ok () ↔
      '\x00' ∉ path.toList ∧ path ≠ "" ∧ path.utf8ByteSize ≤ maxPathSize := by
  rw [requirePath]
  split_ifs with hzero hempty hsize
  · simp_all
  · simp_all
  · simp_all
  · simp_all

theorem resolve_eq_ok_iff :
    disk.resolve path = .ok place ↔
      requirePath path = .ok () ∧ disk.walk [] (Path.parts path) = .ok place := by
  rw [resolve_eq]
  cases requirePath path <;> simp [Except.bind]

theorem walk_singleton (disk : Disk) (place) (part : String) :
    disk.walk place [part] = disk.enter place part := by
  rw [walk]
  cases disk.enter place part <;> rfl

/-- An empty part leads nowhere else. -/
theorem eq_of_enter_empty (h : disk.enter place "" = .ok reached) : reached = place := by
  cases hfolder : disk.requireFolder place with
  | error error =>
    rw [enter, hfolder] at h
    cases h
  | ok =>
    rw [enter_of_folder hfolder, if_neg (by decide)] at h
    exact (Except.ok.inj h).symm

/-- The way to an entry of a folder goes through the folder. -/
theorem walk_parts_join (h : disk.Opens folder place) (hname : IsName name) :
    disk.walk [] (Path.parts (join folder name)) = disk.enter place name := by
  obtain ⟨hpath, hwalk⟩ := resolve_eq_ok_iff.1 h.resolve
  obtain ⟨way, hway, hjoin⟩ := Path.exists_parts_join (requirePath_eq_ok_iff.1 hpath).2.1
  have hreached : disk.walk [] way = .ok place := by
    rcases hway with hway | hway
    · rw [← hway, hwalk]
    · rw [hway, walk_append] at hwalk
      cases hreached : disk.walk [] way with
      | error error =>
        rw [hreached] at hwalk
        cases hwalk
      | ok reached =>
        rw [hreached, Except.bind, walk_singleton] at hwalk
        rw [eq_of_enter_empty hwalk]
  rw [hjoin name hname.slashless, walk_append, hreached, Except.bind, walk_singleton]

/-! ## Entries of a folder -/

/-- Neither the path of the entry nor its name is too long. -/
def Fits (folder name : String) : Prop :=
  (join folder name).utf8ByteSize ≤ maxPathSize ∧ name.utf8ByteSize ≤ maxNameSize

instance (folder name : String) : Decidable (Fits folder name) :=
  inferInstanceAs (Decidable (_ ∧ _))

theorem Fits.of_le (h : Fits folder name)
    (hsize : shorter.utf8ByteSize ≤ name.utf8ByteSize) : Fits folder shorter := by
  obtain ⟨size, hjoin⟩ := Path.exists_utf8ByteSize_join folder
  obtain ⟨hpath, hname⟩ := h
  rw [hjoin] at hpath
  exact ⟨by rw [hjoin]; omega, by omega⟩

theorem requirePath_join (h : requirePath folder = .ok ()) (hname : IsName name) :
    requirePath (join folder name) =
      if maxPathSize < (join folder name).utf8ByteSize then .error .nameTooLong else .ok () := by
  obtain ⟨hzero, hempty, -⟩ := requirePath_eq_ok_iff.1 h
  obtain ⟨lead, hjoin, hfolder⟩ := Path.exists_toList_join hempty
  have hlead : '\x00' ∉ lead := by
    rcases hfolder with hfolder | ⟨hfolder, -⟩ <;> simp_all
  have hzero : (join folder name).toList.contains '\x00' = false := by
    simp [hjoin, hlead, hname.zeroless]
  have hempty : join folder name ≠ "" := by
    rw [ne_eq, ← String.toList_eq_nil_iff, hjoin]
    simp
  rw [requirePath, hzero, if_neg Bool.false_ne_true, if_neg hempty]

theorem read_eq_ok_iff :
    disk.read path = .ok text ↔
      ∃ place time, disk.find path = .ok (place, .file (.text text) time) := by
  rw [read]
  cases disk.find path with
  | error error => simp [bind, Except.bind]
  | ok found =>
    obtain ⟨place, entry⟩ := found
    cases entry with
    | folder time => simp [bind, Except.bind, throw, throwThe]
    | file content time =>
      cases content <;>
        simp [bind, Except.bind, pure, Except.pure, throw, throwThe]

theorem endsInSlash_join (h : folder ≠ "") (hname : IsName name) :
    ¬ Path.endsInSlash (join folder name) := by
  obtain ⟨lead, hjoin, -⟩ := Path.exists_toList_join h
  rw [Path.endsInSlash, beq_iff_eq, hjoin, List.getLast?_append, List.getLast?_cons]
  intro hlast
  have hchars : name.toList ≠ [] := mt String.toList_eq_nil_iff.1 hname.nonempty
  rw [List.getLast?_eq_some_getLast hchars] at hlast
  have hslash : name.toList.getLast hchars = '/' := by simpa using hlast
  exact hname.slashless (hslash ▸ List.getLast_mem hchars)

theorem write_of_resolve (hslash : ¬ Path.endsInSlash path) (h : disk.resolve path = .ok place)
    (hfolder : ∀ time, disk.get? place ≠ some (.folder time)) :
    disk.write path content now = .ok (disk.add place (.file content now) now) := by
  rw [write, requireFilePath, if_neg hslash, h]
  cases hget : disk.get? place with
  | none => simp [bind, Except.bind, pure, Except.pure]
  | some entry =>
    cases entry with
    | file old time => simp [bind, Except.bind, pure, Except.pure]
    | folder time => exact absurd hget (hfolder time)

section

variable (h : disk.Opens folder place) (hname : IsName name)

include h hname

/-- The path of an entry leads to its place, right below that of the folder. -/
theorem resolve_join :
    disk.resolve (join folder name) =
      if Fits folder name then .ok (place ++ [name]) else .error .nameTooLong := by
  have hpath := (resolve_eq_ok_iff.1 h.resolve).1
  rw [resolve_eq, requirePath_join hpath hname, walk_parts_join h hname,
    enter_of_folder (requireFolder_eq_ok_iff.2 h.get?), step_of_isName place hname]
  by_cases hlong : maxPathSize < (join folder name).utf8ByteSize
  · have hfits : ¬ Fits folder name := fun hfits => absurd hfits.1 (Nat.not_le.2 hlong)
    rw [if_pos hlong, if_neg hfits]
    rfl
  · rw [if_neg hlong, Except.bind]
    by_cases hsize : maxNameSize < name.utf8ByteSize
    · have hfits : ¬ Fits folder name := fun hfits => absurd hfits.2 (Nat.not_le.2 hsize)
      rw [if_pos hsize, if_neg hfits]
    · rw [if_neg hsize, if_pos ⟨Nat.not_lt.1 hlong, Nat.not_lt.1 hsize⟩]

theorem find_join :
    disk.find (join folder name) =
      if Fits folder name then
        (disk.get? (place ++ [name])).elim (.error .missing) fun entry =>
          .ok (place ++ [name], entry)
      else .error .nameTooLong := by
  have hresolve := resolve_join h hname
  split_ifs with hfits
  · exact find_of_resolve (by rw [hresolve, if_pos hfits])
  · exact find_of_resolve_error (by rw [hresolve, if_neg hfits])

theorem time?_join :
    disk.time? (join folder name) =
      if Fits folder name then (disk.get? (place ++ [name])).map Entry.time else none := by
  rw [time?, find_join h hname]
  split_ifs with hfits
  · cases disk.get? (place ++ [name]) <;> rfl
  · rfl

theorem read_join_eq_ok_iff :
    disk.read (join folder name) = .ok text ↔
      Fits folder name ∧ ∃ time, disk.get? (place ++ [name]) = some (.file (.text text) time) := by
  rw [read_eq_ok_iff, find_join h hname]
  split_ifs with hfits
  · cases disk.get? (place ++ [name]) <;> simp [hfits]
  · simp [hfits]

theorem opens_join_iff :
    disk.Opens (join folder name) other ↔
      Fits folder name ∧ other = place ++ [name] ∧
        ∃ time, disk.get? (place ++ [name]) = some (.folder time) := by
  rw [Opens, find_join h hname]
  split_ifs with hfits
  · cases disk.get? (place ++ [name]) <;> simp [hfits, eq_comm]
  · simp [hfits]

/-- A file can be written in a folder unless a folder has its name or the name is too long. -/
theorem write_join_cases (content : Content) (now : Nat) :
    (¬ Fits folder name ∧ disk.write (join folder name) content now = .error .nameTooLong) ∨
    (Fits folder name ∧ (∃ time, disk.get? (place ++ [name]) = some (.folder time)) ∧
      disk.write (join folder name) content now = .error .isFolder) ∨
    (Fits folder name ∧ (∀ time, disk.get? (place ++ [name]) ≠ some (.folder time)) ∧
      disk.write (join folder name) content now =
        .ok (disk.add (place ++ [name]) (.file content now) now)) := by
  have hempty := (requirePath_eq_ok_iff.1 (resolve_eq_ok_iff.1 h.resolve).1).2.1
  have hslash := endsInSlash_join hempty hname
  have hresolve := resolve_join h hname
  by_cases hfits : Fits folder name
  · rw [if_pos hfits] at hresolve
    by_cases hfolder : ∃ time, disk.get? (place ++ [name]) = some (.folder time)
    · refine .inr (.inl ⟨hfits, hfolder, ?_⟩)
      obtain ⟨time, hget⟩ := hfolder
      rw [write, requireFilePath, if_neg hslash, hresolve]
      simp [bind, Except.bind, pure, Except.pure, hget, throw, throwThe, MonadExceptOf.throw]
    · rw [not_exists] at hfolder
      exact .inr (.inr ⟨hfits, hfolder, write_of_resolve hslash hresolve hfolder⟩)
  · refine .inl ⟨hfits, ?_⟩
    rw [if_neg hfits] at hresolve
    rw [write, requireFilePath, if_neg hslash, hresolve]
    rfl

theorem write_join_eq_ok_iff :
    disk.write (join folder name) content now = .ok after ↔
      Fits folder name ∧ (∀ time, disk.get? (place ++ [name]) ≠ some (.folder time)) ∧
        after = disk.add (place ++ [name]) (.file content now) now := by
  rcases write_join_cases h hname content now with
    ⟨hfits, hwrite⟩ | ⟨hfits, hfolder, hwrite⟩ | ⟨hfits, hfolder, hwrite⟩
  · simp [hwrite, hfits]
  · simpa [hwrite, hfits] using fun hnone => absurd hfolder (not_exists.2 hnone)
  · simp [hwrite, hfits, hfolder, eq_comm]

theorem write_join_eq_error_iff :
    disk.write (join folder name) content now = .error error ↔
      if Fits folder name then
        (∃ time, disk.get? (place ++ [name]) = some (.folder time)) ∧ error = .isFolder
      else error = .nameTooLong := by
  rcases write_join_cases h hname content now with
    ⟨hfits, hwrite⟩ | ⟨hfits, hfolder, hwrite⟩ | ⟨hfits, hfolder, hwrite⟩
  · simp [hwrite, hfits, eq_comm]
  · simp [hwrite, hfits, hfolder, eq_comm]
  · simp [hwrite, hfits, hfolder]

end

/-! ## New entries -/

theorem get?_touch (disk : Disk) (place other) (time : Nat) :
    (disk.touch place time).get? other =
      if other = place then (disk.get? place).map (Entry.withTime time) else disk.get? other := by
  rw [touch]
  cases hget : disk.get? place with
  | none =>
    split_ifs with heq
    · simp [heq, hget]
    · rfl
  | some entry =>
    split_ifs with heq
    · simp [heq]
    · exact get?_put_of_ne disk _ heq

/-- A new entry changes nothing but its place and the time of the folder around it. -/
theorem get?_add_of_ne (entry : Entry) (now : Nat) (hplace : other ≠ place)
    (hfolder : other ≠ place.dropLast) :
    (disk.add place entry now).get? other = disk.get? other := by
  rw [add]
  cases disk.get? place with
  | some found => exact get?_put_of_ne disk entry hplace
  | none => rw [get?_put_of_ne _ entry hplace, get?_touch, if_neg hfolder]

/-- Next to a new entry the folders are those that were there. -/
theorem isFolder_get?_add (entry : Entry) (now : Nat) (hplace : other ≠ place) :
    (∃ time, (disk.add place entry now).get? other = some (.folder time)) ↔
      ∃ time, disk.get? other = some (.folder time) := by
  by_cases hfolder : other = place.dropLast
  · rw [add]
    cases disk.get? place with
    | some found => rw [get?_put_of_ne disk entry hplace]
    | none =>
      rw [get?_put_of_ne _ entry hplace, get?_touch, if_pos hfolder, ← hfolder]
      cases disk.get? other with
      | none => simp
      | some found => cases found <;> simp [Entry.withTime]
  · rw [get?_add_of_ne entry now hplace hfolder]

theorem Sound.empty (time : Nat) : (Disk.empty time).Sound where
  distinct := by simp [Disk.empty]
  named := by
    intro place content own hget
    rw [get?, Disk.empty, List.lookup_cons] at hget
    split at hget <;> cases hget

theorem Sound.put (h : disk.Sound)
    (hnamed : ∀ content time, entry = .file content time →
      ∃ folder name, place = folder ++ [name] ∧ IsName name ∧ name.utf8ByteSize ≤ maxNameSize) :
    (disk.put place entry).Sound where
  distinct := by
    rw [Disk.put, List.map_cons, List.nodup_cons]
    refine ⟨by simp, ?_⟩
    exact h.distinct.sublist (List.filter_sublist.map Prod.fst)
  named := by
    intro other content time hget
    by_cases heq : other = place
    · subst heq
      rw [get?_put_self, Option.some.injEq] at hget
      exact hnamed content time hget
    · rw [get?_put_of_ne disk entry heq] at hget
      exact h.named other content time hget

theorem Sound.touch (h : disk.Sound) (place) (time : Nat) : (disk.touch place time).Sound := by
  rw [Disk.touch]
  cases hget : disk.get? place with
  | none => exact h
  | some entry =>
    refine h.put fun content time heq => ?_
    cases entry with
    | file old before => exact h.named place old before hget
    | folder before => cases heq

theorem Sound.add_file (h : disk.Sound) (hname : IsName name)
    (hsize : name.utf8ByteSize ≤ maxNameSize) (place) (content : Content) (time now : Nat) :
    (disk.add (place ++ [name]) (.file content time) now).Sound := by
  rw [Disk.add]
  cases disk.get? (place ++ [name]) with
  | some found => exact h.put fun _ _ _ => ⟨place, name, rfl, hname, hsize⟩
  | none => exact (h.touch _ now).put fun _ _ _ => ⟨place, name, rfl, hname, hsize⟩

/-! ## Disks that differ in files of one folder -/

/-- Disks with the same folders that differ at most in the files of some names in one of them. The
time of that folder may be another as well. -/
structure DifferIn (place : Place) (names : List String) (disk after : Disk) : Prop where
  folders : ∀ other, (∃ time, after.get? other = some (.folder time)) ↔
    ∃ time, disk.get? other = some (.folder time)
  others : ∀ other, other ≠ place → (∀ name ∈ names, other ≠ place ++ [name]) →
    after.get? other = disk.get? other

section

theorem DifferIn.refl (place names) (disk : Disk) : DifferIn place names disk disk :=
  ⟨fun _ => Iff.rfl, fun _ _ _ => rfl⟩

variable (h : DifferIn place names disk after)

include h

theorem DifferIn.symm : DifferIn place names after disk :=
  ⟨fun other => (h.folders other).symm, fun other hplace hnames =>
    (h.others other hplace hnames).symm⟩

theorem DifferIn.trans (h' : DifferIn place more after last) :
    DifferIn place (names ++ more) disk last where
  folders other := (h'.folders other).trans (h.folders other)
  others other hplace hnames := by
    rw [h'.others other hplace fun name hname => hnames name (by simp [hname]),
      h.others other hplace fun name hname => hnames name (by simp [hname])]

theorem DifferIn.mono (hnames : names ⊆ more) : DifferIn place more disk after :=
  ⟨h.folders, fun other hplace hmore =>
    h.others other hplace fun name hname => hmore name (hnames hname)⟩

/-- What leads through folders leads there still. -/
theorem DifferIn.walk (hwalk : disk.walk start way = .ok reached) :
    after.walk start way = .ok reached := by
  induction way generalizing start with
  | nil => exact hwalk
  | cons part rest ih =>
    rw [Disk.walk] at hwalk ⊢
    cases hfolder : disk.requireFolder start with
    | error error =>
      rw [enter, hfolder] at hwalk
      cases hwalk
    | ok =>
      have hafter : after.requireFolder start = .ok () :=
        requireFolder_eq_ok_iff.2 ((h.folders start).2 (requireFolder_eq_ok_iff.1 hfolder))
      rw [enter_of_folder hfolder] at hwalk
      rw [enter_of_folder hafter]
      split_ifs at hwalk ⊢ with hsize
      · cases hwalk
      · exact ih hwalk

theorem DifferIn.opens (hopens : disk.Opens path other) : after.Opens path other := by
  obtain ⟨hpath, hwalk⟩ := resolve_eq_ok_iff.1 hopens.resolve
  obtain ⟨time, hget⟩ := (h.folders other).2 hopens.get?
  exact ⟨time, find_eq_ok_iff.2 ⟨resolve_eq_ok_iff.2 ⟨hpath, h.walk hwalk⟩, hget⟩⟩

theorem DifferIn.opens_iff : after.Opens path other ↔ disk.Opens path other :=
  ⟨h.symm.opens, h.opens⟩

theorem DifferIn.get?_of_notMem (hname : name ∉ names) :
    after.get? (place ++ [name]) = disk.get? (place ++ [name]) := by
  refine h.others _ (by simp) fun other hother heq => hname ?_
  obtain ⟨-, rfl⟩ := List.append_singleton_inj.1 heq
  exact hother

variable (hopens : disk.Opens folder place) (hname : IsName name) (hother : name ∉ names)

include hopens hname hother

/-- Any other entry of the folder is found as before. -/
theorem DifferIn.find_join : after.find (join folder name) = disk.find (join folder name) := by
  rw [Disk.find_join hopens hname, Disk.find_join (h.opens hopens) hname, h.get?_of_notMem hother]

theorem DifferIn.read_join : after.read (join folder name) = disk.read (join folder name) := by
  rw [read, h.find_join hopens hname hother, read]

theorem DifferIn.time?_join : after.time? (join folder name) = disk.time? (join folder name) := by
  rw [time?, h.find_join hopens hname hother, time?]

end

theorem differIn_add (hget : ∀ time, disk.get? (place ++ [name]) ≠ some (.folder time))
    (content : Content) (now : Nat) :
    DifferIn place [name] disk (disk.add (place ++ [name]) (.file content now) now) where
  folders other := by
    by_cases heq : other = place ++ [name]
    · subst heq
      simp [hget]
    · exact isFolder_get?_add _ now heq
  others other hplace hnames :=
    get?_add_of_ne _ now (hnames name (by simp)) (by simpa using hplace)

end Disk

end SwiftToKotlin.Workspace
