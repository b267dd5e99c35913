/-
A helper that was put in place. The directories are still there, all files but the helper have kept
their contents, and the next attempt finds the helper there. What paths stand for has changed by
the helper at most, unless one of them was opened up.
-/
import TagMigration.Proofs.Project.Expansion

namespace TagMigration

/-! ### Order -/

namespace Workspace

variable {files after : Workspace} {path : Path}

theorem ordered_write {content : ByteArray} (ordered : files.tree.Ordered)
    (written : files.write path content = (.ok (), after)) : after.tree.Ordered := by
  rw [(write_ok written).2.2]
  exact ordered.put _ _

theorem ordered_createDirectories (ordered : files.tree.Ordered) (depth : Nat) (path : Path) :
    (files.createDirectories depth path).2.tree.Ordered := by
  have ordered_createDirectory {files after : Workspace} {path : Path}
      (ordered : files.tree.Ordered) (created : files.createDirectory path = .ok after) :
      after.tree.Ordered := by
    rw [(createDirectory_eq created).1]
    exact ordered.put _ _
  induction depth generalizing path with
  | zero => exact ordered
  | succ depth inductionHypothesis =>
    rw [createDirectories]
    split
    · exact ordered
    · split
      · next created => exact ordered_createDirectory ordered created
      · split
        · exact ordered
        · next parent isParent =>
          have further := inductionHypothesis parent
          split
          · next made =>
            rw [made] at further
            exact further
          · next between made =>
            rw [made] at further
            split
            · next created => exact ordered_createDirectory further created
            · split <;> exact further
      · split <;> exact ordered

theorem ordered_moveFile {source target : Path} (ordered : files.tree.Ordered)
    (moved : files.moveFile source target = .ok after) : after.tree.Ordered := by
  obtain ⟨content, -, -, -, -, -, rfl⟩ := moveFile_cases moved
  exact (ordered.erase _).put _ _

end Workspace

namespace Helper

variable {config : Config} {files after : Workspace} {path : Path}

theorem ordered_prepare {result : Except Error Unit} (ordered : files.tree.Ordered)
    (prepares : prepare files path = (result, after)) : after.tree.Ordered := by
  rw [prepare] at prepares
  split at prepares
  · cases prepares
    exact ordered
  · next parent isParent =>
    have made := Workspace.ordered_createDirectories ordered (parent.text.length + 1) parent
    split at prepares
    · next done =>
      rw [done] at made
      cases prepares
      exact made
    · next done =>
      rw [done] at made
      cases prepares
      exact made

theorem ordered_place (ordered : files.tree.Ordered)
    (placed : place files path = (.ok (), after)) : after.tree.Ordered := by
  obtain ⟨between, written, moved⟩ := exists_of_place placed
  exact Workspace.ordered_moveFile (Workspace.ordered_write ordered written) moved

/-- What was placed took the place of no directory. -/
theorem noDirectory_of_place (placed : place files path = (.ok (), after)) :
    files.tree.get? (files.placeOf path) ≠ some .directory := by
  intro isDirectory
  obtain ⟨between, written, moved⟩ := exists_of_place placed
  obtain ⟨fits, -, rfl⟩ := Workspace.write_ok written
  obtain ⟨-, -, -, -, noDirectory, -, -⟩ := Workspace.moveFile_cases moved
  have other : files.placeOf path ≠ files.placeOf (stagingPath files.process path) :=
    fun same => fits.noDirectory (same ▸ isDirectory)
  exact noDirectory ((files.tree.get?_put_other _ _ other).trans isDirectory)

/-! ### The helper in place -/

/-- Between two states of the files the helper was put in place, or it was there. -/
structure Installed (config : Config) (files after : Workspace) : Prop
    extends files.SameSetting after where
  directory : ∀ place, files.tree.get? place = some .directory →
    after.tree.get? place = some .directory
  file : ∀ place content, place ≠ files.placeOf config.helperFile →
    (after.tree.get? place = some (.file content) ↔ files.tree.get? place = some (.file content))
  there : ∃ content, after.tree.get? (files.placeOf config.helperFile) = some (.file content)
  ordered : files.tree.Ordered → after.tree.Ordered

theorem exists_read_of_isCurrent (current : isCurrent files path = true) :
    ∃ content, files.read path = .ok content := by
  rw [isCurrent] at current
  split at current
  · next content read => exact ⟨content, read⟩
  · cases current

variable [Parser]

/-- A helper that is in place was there before, or it is read along its path. -/
theorem write_ok_cases {outcome : Outcome} (rooted : files.Rooted)
    (written : write config files = (.ok outcome, after)) :
    after = files ∧ isCurrent files config.helperFile = true ∨
      after.read config.helperFile = .ok content := by
  rcases (cases_of_write_ok written).2 with there | ⟨between, prepares, places⟩
  · exact .inl there
  · exact .inr (read_of_place ((grows_of_prepare prepares).rooted rooted) places)

theorem isCurrent_of_write {outcome : Outcome} (rooted : files.Rooted)
    (written : write config files = (.ok outcome, after)) :
    isCurrent after config.helperFile = true := by
  rcases write_ok_cases rooted written with ⟨rfl, current⟩ | read
  · exact current
  · exact isCurrent_of_read read

theorem readable_of_write {outcome : Outcome} (rooted : files.Rooted)
    (written : write config files = (.ok outcome, after)) :
    ∃ content, after.read config.helperFile = .ok content :=
  exists_read_of_isCurrent (isCurrent_of_write rooted written)

/-- As long as the helper is read as it was when it was put in place, the next attempt leaves it
alone. -/
theorem write_again {outcome : Outcome} {later : Workspace} (rooted : files.Rooted)
    (written : write config files = (.ok outcome, after))
    (same : later.read config.helperFile = after.read config.helperFile) :
    write config later = (.ok ⟨config.helperFile, .unchanged, Sha256.hex content⟩, later) := by
  have current := isCurrent_of_write rooted written
  rw [isCurrent, ← same] at current
  exact write_of_isCurrent (cases_of_write_ok written).1 current

theorem installed_of_write {outcome : Outcome} (rooted : files.Rooted)
    (unstaged : Unstaged config files) (written : write config files = (.ok outcome, after)) :
    Installed config files after := by
  obtain ⟨setting, touched⟩ := frame_of_ok written
  -- Under the name of the staging file there was nothing and is nothing.
  have unchanged {place : List String} (elsewhere : place ≠ files.placeOf config.helperFile) :
      after.tree.get? place = files.tree.get? place ∨
        files.tree.get? place = none ∧ after.tree.get? place = some .directory := by
    rcases touched place with same | isHelper | ⟨missing, made, -⟩ | ⟨below, gone⟩
    · exact .inl same
    · exact absurd isHelper elsewhere
    · exact .inr ⟨missing, made⟩
    · by_cases root : place = []
      · rw [root]
        exact .inl rfl
      · exact .inl (gone.trans (get?_of_unstaged unstaged root below).symm)
  rcases (cases_of_write_ok written).2 with ⟨rfl, current⟩ | ⟨between, prepares, places⟩
  · obtain ⟨content, read⟩ := exists_read_of_isCurrent current
    exact ⟨setting, fun _ => id, fun _ _ _ => .rfl, ⟨content, Workspace.get?_of_read read⟩, id⟩
  · have grows := grows_of_prepare prepares
    have read := Workspace.get?_of_read (read_of_place (grows.rooted rooted) places)
    rw [Workspace.placeOf_congr setting.here] at read
    have notHelper (place : List String) (isDirectory : files.tree.get? place = some .directory) :
        place ≠ files.placeOf config.helperFile := by
      rintro rfl
      have noDirectory := noDirectory_of_place places
      rw [Workspace.placeOf_congr grows.here] at noDirectory
      rcases grows.grown (files.placeOf config.helperFile) with same | ⟨missing, -, -⟩
      · exact noDirectory (same.trans isDirectory)
      · rw [missing] at isDirectory
        cases isDirectory
    refine ⟨setting, fun place isDirectory => ?_, fun place content elsewhere => ?_,
      ⟨_, read⟩, fun ordered => ordered_place (ordered_prepare ordered prepares) places⟩
    · rcases unchanged (notHelper place isDirectory) with same | ⟨missing, -⟩
      · exact same.trans isDirectory
      · rw [missing] at isDirectory
        cases isDirectory
    · rcases unchanged elsewhere with same | ⟨missing, made⟩
      · rw [same]
      · rw [missing, made]
        exact iff_of_false nofun nofun

end Helper

/-! ### What paths stand for -/

namespace Run

variable {config : Config} {files after : Workspace} {paths : List Path} {found : Path}

/-- No path is opened up: where a path leads to a directory that was there before, it led to it
before. -/
def Unopened (files after : Workspace) (paths : List Path) : Prop :=
  ∀ path ∈ paths, ∀ place ∈ after.directory? path, files.tree.get? place = some .directory →
    files.directory? path = some place

instance (files after : Workspace) (paths : List Path) : Decidable (Unopened files after paths) :=
  inferInstanceAs (Decidable (∀ path ∈ paths, ∀ place ∈ after.directory? path,
    files.tree.get? place = some .directory → files.directory? path = some place))

/-- With the helper in place, paths stand for what they stood for, and perhaps the helper. -/
theorem mem_expand_of_installed (wellFormed : files.WellFormed)
    (installed : Helper.Installed config files after) (unopened : Unopened files after paths)
    (member : found ∈ expand config after paths) :
    found ∈ expand config files paths ∨
      after.placeOf found = files.placeOf config.helperFile := by
  have ordered := wellFormed.tree.ordered
  obtain ⟨path, inPaths, expands⟩ := List.mem_flatMap.mp member
  rcases (mem_expandPath (installed.ordered ordered)).mp expands with ⟨noDirectory, rfl⟩ |
    ⟨place, names, leads, named, ⟨content, there⟩, rfl, eligible⟩
  · have noneBefore : files.directory? found = none := by
      cases before : files.directory? found with
      | none => rfl
      | some place =>
        have still := Workspace.directory?_of_stays installed.here installed.directory before
        rw [noDirectory] at still
        cases still
    exact .inl (List.mem_flatMap.mpr
      ⟨found, inPaths, (mem_expandPath ordered).mpr (.inl ⟨noneBefore, rfl⟩)⟩)
  · by_cases isHelper : place ++ names = files.placeOf config.helperFile
    · right
      have proper : ∀ name ∈ names, Path.IsProper name := fun name member =>
        Workspace.isProper_of_mem_placeOf (wellFormed.tree.isProper wellFormed.here)
          config.helperFile name (isHelper ▸ List.mem_append_right _ member)
      have isPlace : place = after.placeOf path :=
        (Workspace.locate_isAt (Workspace.directory?_eq_some.mp leads)).1
      rw [Workspace.placeOf_foldl_join after (Workspace.text_of_directory? leads) proper,
        ← isPlace, isHelper]
    · left
      have before := (installed.file _ content isHelper).mp there
      have leadsBefore := unopened path inPaths place leads (wellFormed.tree.above before named)
      exact List.mem_flatMap.mpr ⟨path, inPaths, (mem_expandPath ordered).mpr
        (.inr ⟨place, names, leadsBefore, named, ⟨content, before⟩, rfl, eligible⟩)⟩

/-- What paths stood for and what can be read, they still stand for with the helper in place. -/
theorem mem_expand_installed (ordered : files.tree.Ordered)
    (installed : Helper.Installed config files after) (member : found ∈ expand config files paths)
    (readable : ∃ content, after.read found = .ok content) : found ∈ expand config after paths := by
  obtain ⟨path, inPaths, expands⟩ := List.mem_flatMap.mp member
  refine List.mem_flatMap.mpr ⟨path, inPaths, (mem_expandPath (installed.ordered ordered)).mpr ?_⟩
  rcases (mem_expandPath ordered).mp expands with ⟨-, rfl⟩ |
    ⟨place, names, leads, named, ⟨content, there⟩, isFound, eligible⟩
  · obtain ⟨content, read⟩ := readable
    refine .inl ⟨?_, rfl⟩
    rw [Workspace.directory?, Workspace.read_eq_ok.mp read]
  · refine .inr ⟨place, names, ?_, named, ?_, isFound, eligible⟩
    · exact Workspace.directory?_of_stays installed.here installed.directory leads
    · by_cases isHelper : place ++ names = files.placeOf config.helperFile
      · rw [isHelper]
        exact installed.there
      · exact ⟨content, (installed.file _ content isHelper).mpr there⟩

end Run

end TagMigration
