import SwiftToKotlin.Proofs.Workspace.Paths

/-!
# Other extensions

A path is a front, up to its last slash, and the name after that. To change
the extension changes only what follows the last dot of the name. So one change is undone by the
next, and paths that differ stay apart as long as they had the same extension.
-/

namespace SwiftToKotlin.Path

/-- The front is the part of the path up to the last slash, and the name is the rest. -/
structure EndsIn (path front name : String) : Prop where
  eq_append : path = front ++ name
  slash : front = "" ∨ endsInSlash front
  slashless : '/' ∉ name.toList

/-- The stem is the name up to the last dot, or the whole name if there is none. -/
def IsStem (stem name : String) : Prop :=
  '.' ∉ name.toList ∧ stem = name ∨ ∃ old : String, '.' ∉ old.toList ∧ name = fileName stem old

theorem exists_endsIn (path : String) : ∃ front name, EndsIn path front name := by
  cases hcut : Text.cutLast ['/'] path.toList with
  | none =>
    have hslash := Text.cutLast_singleton_eq_none_iff.1 hcut
    exact ⟨"", path, by simp, .inl rfl, hslash⟩
  | some parts =>
    obtain ⟨hpath, hslash⟩ := Text.cutLast_singleton_iff.1 hcut
    refine ⟨String.ofList (parts.1 ++ ['/']), String.ofList parts.2, ?_, .inr ?_, by simpa⟩
    · apply String.toList_inj.1
      simp [hpath]
    · exact endsInSlash_iff.2 ⟨parts.1, by simp⟩

theorem exists_isStem (name : String) : ∃ stem, IsStem stem name := by
  cases hcut : Text.cutLast ['.'] name.toList with
  | none => exact ⟨name, .inl ⟨Text.cutLast_singleton_eq_none_iff.1 hcut, rfl⟩⟩
  | some parts =>
    obtain ⟨hname, hdot⟩ := Text.cutLast_singleton_iff.1 hcut
    refine ⟨String.ofList parts.1, .inr ⟨String.ofList parts.2, by simpa, ?_⟩⟩
    apply String.toList_inj.1
    simp [hname]

theorem IsStem.changeNameExtension_eq (h : IsStem stem name) (new : String) :
    changeNameExtension new name.toList = fileName stem new := by
  rcases h with ⟨hdot, rfl⟩ | ⟨old, hdot, rfl⟩
  · rw [changeNameExtension, Text.cutLast_singleton_eq_none_iff.2 hdot]
    simp [fileName]
  · exact changeNameExtension_fileName new hdot

theorem IsStem.slashless (h : IsStem stem name) (hname : '/' ∉ name.toList) :
    '/' ∉ stem.toList := by
  rcases h with ⟨-, rfl⟩ | ⟨old, -, rfl⟩
  · exact hname
  · exact fun hmem => hname (by simp [hmem])

theorem EndsIn.changeExtension_eq (h : EndsIn path front name) (hstem : IsStem stem name)
    (new : String) : changeExtension new path = front ++ fileName stem new := by
  have hjoin (name : String) : join front name = front ++ name := if_pos h.slash
  rw [h.eq_append, ← hjoin, changeExtension_join new front h.slashless,
    hstem.changeNameExtension_eq, hjoin]

/-- The new name comes in the place of the old one. -/
theorem EndsIn.changeExtension (h : EndsIn path front name) (hstem : IsStem stem name)
    (hnew : '/' ∉ new.toList) : EndsIn (changeExtension new path) front (fileName stem new) where
  eq_append := h.changeExtension_eq hstem new
  slash := h.slash
  slashless := by simp [hstem.slashless h.slashless, hnew]

theorem changeExtension_changeExtension (hdot : '.' ∉ first.toList) (hslash : '/' ∉ first.toList)
    (second path : String) :
    changeExtension second (changeExtension first path) = changeExtension second path := by
  obtain ⟨front, name, hpath⟩ := exists_endsIn path
  obtain ⟨stem, hstem⟩ := exists_isStem name
  have hagain : IsStem stem (fileName stem first) := .inr ⟨first, hdot, rfl⟩
  rw [(hpath.changeExtension hstem hslash).changeExtension_eq hagain,
    hpath.changeExtension_eq hstem]

/-- The front and the stem tell the path, since both paths go on alike. -/
theorem EndsIn.eq_of_changeExtension_eq (h : EndsIn path front (fileName stem old))
    (h' : EndsIn other front' (fileName stem' old)) (hold : '.' ∉ old.toList)
    (heq : Path.changeExtension new path = Path.changeExtension new other) : path = other := by
  have hstem (stem : String) : IsStem stem (fileName stem old) := .inr ⟨old, hold, rfl⟩
  have hbehind (front stem extension : String) :
      front ++ fileName stem extension = front ++ stem ++ ("." ++ extension) := by
    simp [fileName, toString, String.append_assoc]
  rw [h.changeExtension_eq (hstem stem), h'.changeExtension_eq (hstem stem'), hbehind, hbehind,
    String.append_left_inj] at heq
  rw [h.eq_append, h'.eq_append, hbehind, hbehind, heq]

/-- Of two changes only the second counts. Every path has a front and a name with a stem; the front
stays, and the stem is followed by the new extension. Different paths to names with the same
extension stay different, whatever they get instead. -/
theorem changeExtension_composes_and_separates :
    (∀ path first second : String, '.' ∉ first.toList → '/' ∉ first.toList →
      changeExtension second (changeExtension first path) = changeExtension second path) ∧
    (∀ path : String, ∃ front name stem, EndsIn path front name ∧ IsStem stem name ∧
      ∀ new : String, '/' ∉ new.toList →
        EndsIn (changeExtension new path) front (fileName stem new)) ∧
    ∀ path other old front stem front' stem' : String, '.' ∉ old.toList → path ≠ other →
      EndsIn path front (fileName stem old) → EndsIn other front' (fileName stem' old) →
        ∀ new, changeExtension new path ≠ changeExtension new other := by
  refine ⟨fun path first second hdot hslash => ?_, fun path => ?_, ?_⟩
  · exact changeExtension_changeExtension hdot hslash second path
  · obtain ⟨front, name, hpath⟩ := exists_endsIn path
    obtain ⟨stem, hstem⟩ := exists_isStem name
    exact ⟨front, name, stem, hpath, hstem, fun new hnew => hpath.changeExtension hstem hnew⟩
  · intro path other old front stem front' stem' hold hne hpath hother new heq
    exact hne (hpath.eq_of_changeExtension_eq hother hold heq)

theorem changeExtension_separates_dumps :
    changeExtension "kt" (changeExtension "d" ".d.e/f.g.x") = changeExtension "kt" ".d.e/f.g.x" ∧
      changeExtension "g.x" ".d.e/f.g.x" ≠ changeExtension "g.x" ".d.e/.x" := by
  obtain ⟨hcompose, -, hseparate⟩ := changeExtension_composes_and_separates
  refine ⟨hcompose _ _ _ (by decide) (by decide), ?_⟩
  exact hseparate _ _ "x" ".d.e/" "f.g" ".d.e/" "" (by decide) (by decide)
    ⟨by decide, .inr (by decide), by decide⟩ ⟨by decide, .inr (by decide), by decide⟩ _

end SwiftToKotlin.Path
