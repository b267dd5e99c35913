/-
What putting the helper in place does to the files. Directories are made on the way to it,
where nothing stood before. The helper is written to a staging file, and moving that file
into place, or removing it when it cannot be moved, leaves nothing under its name, not even what
stood there before; only a staging file whose writing was cut off or whose removal is refused
stays behind.
-/
import TagMigration.Project.Helper
import TagMigration.Proofs.Project.Frame

namespace TagMigration

/-- A path leads through itself, its parent, the parent of its parent and so on. -/
inductive Path.Through : Path → Path → Prop where
  | self (path : Path) : Through path path
  | parent {path parent above : Path} (isParent : path.parent? = some parent)
    (further : Through parent above) : Through path above

namespace Workspace

/-- Between two states of the files nothing has changed but that directories were made, at places
that are among those given and where nothing stood. -/
structure Grows (files after : Workspace) (places : List String → Prop) : Prop
    extends SameSetting files after where
  grown : ∀ place, after.tree.get? place = files.tree.get? place ∨
    files.tree.get? place = none ∧ after.tree.get? place = some .directory ∧ places place

section Grows

variable {files between after : Workspace} {places : List String → Prop}

theorem grows_refl (files : Workspace) (places : List String → Prop) : Grows files files places :=
  ⟨.refl files, fun _ => .inl rfl⟩

theorem Grows.mono {more : List String → Prop} (grows : Grows files after places)
    (subset : ∀ place, places place → more place) : Grows files after more where
  toSameSetting := grows.toSameSetting
  grown place := (grows.grown place).imp_right fun ⟨missing, made, there⟩ =>
    ⟨missing, made, subset place there⟩

theorem Grows.trans (grows : Grows files between places) (further : Grows between after places) :
    Grows files after places where
  toSameSetting := grows.toSameSetting.trans further.toSameSetting
  grown place := by
    rcases further.grown place with same | ⟨missing, made, there⟩
    · rw [same]
      exact grows.grown place
    · rcases grows.grown place with same | ⟨-, taken, -⟩
      · exact .inr ⟨same ▸ missing, made, there⟩
      · rw [taken] at missing
        cases missing

theorem grows_createDirectory {path : Path} (created : files.createDirectory path = .ok after)
    (there : places (files.placeOf path)) : Grows files after places := by
  obtain ⟨rfl, missing⟩ := createDirectory_eq created
  refine ⟨files.sameSetting_put _ _, fun place => ?_⟩
  by_cases same : place = files.placeOf path
  · subst same
    have named : files.placeOf path ≠ [] := by
      intro root
      rw [root] at missing
      cases missing
    exact .inr ⟨missing, files.tree.get?_put_self _ _ named, there⟩
  · exact .inl (files.tree.get?_put_other _ _ same)

/-- The directories that are created on the way to a path. -/
theorem grows_createDirectories (files : Workspace) (depth : Nat) (path : Path) :
    Grows files (files.createDirectories depth path).2 fun place =>
      ∃ above, path.Through above ∧ files.placeOf above = place := by
  induction depth generalizing path with
  | zero => exact grows_refl files _
  | succ depth inductionHypothesis =>
    rw [createDirectories]
    split
    · exact grows_refl files _
    · split
      · next created => exact grows_createDirectory created ⟨path, .self path, rfl⟩
      · split
        · exact grows_refl files _
        · next parent isParent =>
          have grows : Grows files (files.createDirectories depth parent).2 fun place =>
              ∃ above, path.Through above ∧ files.placeOf above = place :=
            (inductionHypothesis parent).mono fun place ⟨above, through, isAbove⟩ =>
              ⟨above, .parent isParent through, isAbove⟩
          split
          · next made =>
            rw [made] at grows
            exact grows
          · next between made =>
            rw [made] at grows
            split
            · next created =>
              refine grows.trans (grows_createDirectory created ⟨path, .self path, ?_⟩)
              exact (placeOf_congr grows.here path).symm
            · split <;> exact grows
      · split <;> exact grows_refl files _

end Grows

end Workspace

namespace Helper

/-- The places of the directories that lead to a path. -/
def IsParent (files : Workspace) (path : Path) (place : List String) : Prop :=
  ∃ parent above, path.parent? = some parent ∧ parent.Through above ∧ files.placeOf above = place

theorem grows_prepare (files : Workspace) (path : Path) :
    files.Grows (prepare files path).2 (IsParent files path) := by
  rw [prepare]
  split
  · exact Workspace.grows_refl files _
  · next parent isParent =>
    have grows := (files.grows_createDirectories (parent.text.length + 1) parent).mono
      fun place ⟨above, through, isAbove⟩ =>
        (⟨parent, above, isParent, through, isAbove⟩ : IsParent files path place)
    split
    · next made =>
      rw [made] at grows
      exact grows
    · next made =>
      rw [made] at grows
      exact grows

/-! ### The staging file -/

/-- What placing the helper may do to the entries under the name of the staging file and below it:
they are gone, or the staging file has stayed. -/
def Stages (files after : Workspace) (staged place : List String) : Prop :=
  staged <+: place ∧ (after.tree.get? place = none ∨ files.tree.Lingers staged)

section Stages

variable {files after : Workspace} {staged place : List String}

/-- Erasing a place that was put into a tree. -/
theorem get?_erase_put (tree : FileTree) (staged place : List String) (entry : FileTree.Entry) :
    ((tree.put staged entry).erase staged).get? place = tree.get? place ∨
      staged <+: place ∧ ((tree.put staged entry).erase staged).get? place = none := by
  by_cases root : place = []
  · subst root
    exact .inl rfl
  · by_cases below : staged <+: place
    · exact .inr ⟨below, FileTree.get?_erase_below _ staged below root⟩
    · refine .inl ((FileTree.get?_erase_other _ staged below).trans ?_)
      exact tree.get?_put_other staged entry fun same => below (same ▸ List.prefix_rfl)

theorem stages_erase_put (files : Workspace) (staged place : List String)
    (entry : FileTree.Entry) :
    let after := { files with tree := (files.tree.put staged entry).erase staged }
    after.tree.get? place = files.tree.get? place ∨ Stages files after staged place :=
  (get?_erase_put files.tree staged place entry).imp_right fun ⟨below, gone⟩ =>
    ⟨below, .inl gone⟩

theorem stages_put (lingers : files.tree.Lingers staged) (entry : FileTree.Entry)
    (place : List String) :
    (files.put staged entry).tree.get? place = files.tree.get? place ∨
      Stages files (files.put staged entry) staged place := by
  by_cases same : place = staged
  · exact .inr ⟨same ▸ List.prefix_rfl, .inr lingers⟩
  · exact .inl (files.tree.get?_put_other _ _ same)

theorem Stages.congr {between : Workspace} (stages : Stages files between staged place)
    (same : after.tree.get? place = between.tree.get? place) : Stages files after staged place :=
  stages.imp_right fun stays => stays.imp_left same.trans

end Stages

/-! ### Placing the helper -/

section Place

variable {files after : Workspace} {path : Path}

/-- A helper that was placed was written to the staging file and moved from there. -/
theorem exists_of_place (placed : place files path = (.ok (), after)) :
    ∃ between, files.write (stagingPath files.process path) content = (.ok (), between) ∧
      between.moveFile (stagingPath files.process path) path = .ok after := by
  unfold place at placed
  generalize content = bytes at placed ⊢
  generalize stagingPath files.process path = staged at placed ⊢
  simp only at placed
  split at placed
  · cases placed
  · next between written =>
    split at placed
    · next moved =>
      cases placed
      exact ⟨between, written, moved⟩
    · cases placed

/-- If the helper could not be placed, nothing has changed but what stood under the name of the
staging file: that is gone, or the staging file has stayed. -/
theorem stages_of_place_error {error : Error} (placed : place files path = (.error error, after)) :
    files.SameSetting after ∧ ∀ place, after.tree.get? place = files.tree.get? place ∨
      Stages files after (files.placeOf (stagingPath files.process path)) place := by
  -- The content of the helper is a long text that must not be evaluated.
  unfold place at placed
  generalize content = bytes at placed
  generalize stagingPath files.process path = staged at placed ⊢
  simp only at placed
  split at placed
  · next fault between failed =>
    cases placed
    rcases Workspace.write_error failed with same | ⟨size, isCut, rfl⟩
    · rw [same]
      exact ⟨.refl files, fun _ => .inl rfl⟩
    · exact ⟨files.sameSetting_put _ _, stages_put (.inl ⟨size, fault, isCut⟩) _⟩
  · next between written =>
    obtain ⟨fits, -, rfl⟩ := Workspace.write_ok written
    split at placed
    · cases placed
    · rcases Workspace.remove_cases (fits.found bytes) with ⟨-, removed⟩ | ⟨refused, stays⟩
      · rw [removed] at placed
        cases placed
        exact ⟨⟨rfl, rfl, rfl⟩, fun place => stages_erase_put files _ place (.file bytes)⟩
      · have lingers : files.tree.Lingers (files.placeOf staged) := .inr refused
        rw [stays] at placed
        cases placed
        exact ⟨files.sameSetting_put _ _, stages_put lingers _⟩

/-- If the helper was placed, nothing has changed but what stands at its place and under the name of
the staging file, where there is nothing now. -/
theorem gone_of_place (placed : place files path = (.ok (), after)) :
    files.SameSetting after ∧ ∀ place, place ≠ files.placeOf path →
      after.tree.get? place = files.tree.get? place ∨
        files.placeOf (stagingPath files.process path) <+: place ∧ after.tree.get? place = none := by
  obtain ⟨between, written, moved⟩ := exists_of_place placed
  obtain ⟨-, -, rfl⟩ := Workspace.write_ok written
  obtain ⟨bytes, -, -, -, -, -, rfl⟩ := Workspace.moveFile_cases moved
  refine ⟨⟨rfl, rfl, rfl⟩, fun place elsewhere => ?_⟩
  have other := FileTree.get?_put_other
    ((files.tree.put (files.placeOf (stagingPath files.process path)) (.file content)).erase
      (files.placeOf (stagingPath files.process path))) (files.placeOf path) (.file bytes) elsewhere
  exact (get?_erase_put files.tree (files.placeOf (stagingPath files.process path)) place
    (.file content)).imp other.trans (.imp_right other.trans)

end Place

/-! ### The attempt -/

/-- What an attempt to put the helper in place can come to. The check of its source fails; or it is
there already; or it could not be prepared, or not be placed; or it was placed. -/
inductive Attempt [Parser] (config : Config) (files : Workspace) :
    Except Error Outcome × Workspace → Prop where
  | invalid {error : Error} (refused : check source = .error error) :
    Attempt config files (.error error, files)
  | there (current : isCurrent files config.helperFile = true) (valid : check source = .ok ()) :
    Attempt config files (.ok ⟨config.helperFile, .unchanged, Sha256.hex content⟩, files)
  | unprepared {error : Error} {after : Workspace}
    (prepares : prepare files config.helperFile = (.error error, after)) :
    Attempt config files (.error error, after)
  | unplaced {error : Error} {between after : Workspace}
    (prepares : prepare files config.helperFile = (.ok (), between))
    (places : place between config.helperFile = (.error error, after)) :
    Attempt config files (.error error, after)
  | placed {between after : Workspace} (valid : check source = .ok ())
    (prepares : prepare files config.helperFile = (.ok (), between))
    (places : place between config.helperFile = (.ok (), after)) :
    Attempt config files (.ok ⟨config.helperFile, .written, Sha256.hex content⟩, after)

theorem attempt_write [Parser] (config : Config) (files : Workspace) :
    Attempt config files (write config files) := by
  have installs (valid : check source = .ok ()) : Attempt config files (install config files) := by
    unfold install
    by_cases current : isCurrent files config.helperFile = true
    · simp only [if_pos current]
      exact .there current valid
    · simp only [if_neg current]
      rcases prepares : prepare files config.helperFile with ⟨error | done, between⟩
      · exact .unprepared prepares
      · simp only
        rcases places : place between config.helperFile with ⟨error | done, after⟩
        · exact .unplaced prepares places
        · exact .placed valid prepares places
  unfold write
  cases valid : check source with
  | error error => exact .invalid valid
  | ok done => exact installs valid

theorem exists_of_isOk [Parser] {config : Config} {files : Workspace}
    (succeeds : (write config files).1.isOk = true) :
    ∃ outcome, write config files = (.ok outcome, (write config files).2) := by
  cases attempt : (write config files).1 with
  | error error =>
    rw [attempt] at succeeds
    cases succeeds
  | ok outcome => exact ⟨outcome, Prod.ext attempt rfl⟩

/-! ### The frame of an attempt -/

/-- The place of the staging file of the helper of a project. -/
def stagingPlace (config : Config) (files : Workspace) : List String :=
  files.placeOf (stagingPath files.process config.helperFile)

/-- What putting the helper of a project in place may do to the entry at a place, besides nothing:
the helper stands there, or a directory on the way to it has been made, or the place is under the
name of the staging file. -/
def Touches (config : Config) (files after : Workspace) (place : List String) : Prop :=
  place = files.placeOf config.helperFile ∨
    (files.tree.get? place = none ∧ after.tree.get? place = some .directory ∧
      IsParent files config.helperFile place) ∨
    Stages files after (stagingPlace config files) place

theorem Touches.congr {config : Config} {files between after : Workspace} {place : List String}
    (touches : Touches config files between place)
    (same : after.tree.get? place = between.tree.get? place) :
    Touches config files after place := by
  rcases touches with isHelper | ⟨missing, made, isParent⟩ | stages
  · exact .inl isHelper
  · exact .inr (.inl ⟨missing, same.trans made, isParent⟩)
  · exact .inr (.inr (stages.congr same))

theorem stagingPlace_congr {files after : Workspace} (same : files.SameSetting after)
    (config : Config) : stagingPlace config after = stagingPlace config files := by
  rw [stagingPlace, stagingPlace, Workspace.placeOf_congr same.here, same.process]

/-- What an attempt has changed when directories were made first, and then nothing but what is under
the name of the staging file. -/
theorem touched_of_grows {config : Config} {files between after : Workspace} {place : List String}
    {left : Prop} (grows : files.Grows between (IsParent files config.helperFile))
    (touched : after.tree.get? place = between.tree.get? place ∨
      stagingPlace config between <+: place ∧ left) :
    after.tree.get? place = files.tree.get? place ∨
      (files.tree.get? place = none ∧ after.tree.get? place = some .directory ∧
        IsParent files config.helperFile place) ∨
      stagingPlace config files <+: place ∧ left := by
  rw [stagingPlace_congr grows.toSameSetting] at touched
  rcases touched with same | staged
  · rcases grows.grown place with kept | ⟨missing, made, isParent⟩
    · exact .inl (same.trans kept)
    · exact .inr (.inl ⟨missing, same.trans made, isParent⟩)
  · exact .inr (.inr staged)

theorem grows_of_prepare {path : Path} {result : Except Error Unit} {after : Workspace}
    {files : Workspace} (prepares : prepare files path = (result, after)) :
    files.Grows after (IsParent files path) := by
  have grows := grows_prepare files path
  rwa [prepares] at grows

variable [Parser] {config : Config} {files : Workspace}

/-- If the helper cannot be put in place, what is at its place has not changed either. -/
theorem frame_of_error {error : Error} {after : Workspace}
    (failed : write config files = (.error error, after)) :
    files.SameSetting after ∧ ∀ place, after.tree.get? place = files.tree.get? place ∨
      (files.tree.get? place = none ∧ after.tree.get? place = some .directory ∧
        IsParent files config.helperFile place) ∨
      Stages files after (stagingPlace config files) place := by
  have attempt := attempt_write config files
  rw [failed] at attempt
  cases attempt with
  | invalid refused => exact ⟨.refl files, fun _ => .inl rfl⟩
  | unprepared prepares =>
    have grows := grows_of_prepare prepares
    exact ⟨grows.toSameSetting, fun place => (grows.grown place).imp_right .inl⟩
  | unplaced prepares places =>
    have grows := grows_of_prepare prepares
    obtain ⟨setting, touched⟩ := stages_of_place_error places
    refine ⟨grows.toSameSetting.trans setting, fun place => ?_⟩
    have whole := touched_of_grows grows (touched place)
    rwa [FileTree.Lingers, grows.refusals, ← stagingPlace, stagingPlace_congr grows.toSameSetting]
      at whole

/-- A helper that was put in place has replaced what was at its place, and nothing is under the name
of its staging file, unless nothing was done at all. -/
theorem frame_of_ok {outcome : Outcome} {after : Workspace}
    (written : write config files = (.ok outcome, after)) :
    files.SameSetting after ∧ ∀ place, after.tree.get? place = files.tree.get? place ∨
      place = files.placeOf config.helperFile ∨
      (files.tree.get? place = none ∧ after.tree.get? place = some .directory ∧
        IsParent files config.helperFile place) ∨
      stagingPlace config files <+: place ∧ after.tree.get? place = none := by
  have attempt := attempt_write config files
  rw [written] at attempt
  cases attempt with
  | there current valid => exact ⟨.refl files, fun _ => .inl rfl⟩
  | @placed between after valid prepares places =>
    have grows := grows_of_prepare prepares
    obtain ⟨setting, touched⟩ := gone_of_place places
    refine ⟨grows.toSameSetting.trans setting, fun place => ?_⟩
    by_cases isHelper : place = files.placeOf config.helperFile
    · exact .inr (.inl isHelper)
    · rw [← Workspace.placeOf_congr grows.here] at isHelper
      exact (touched_of_grows grows (touched place isHelper)).imp_right .inr

/-- Between two states of the files nothing has changed but what putting the helper in place may
change. -/
structure Frame (config : Config) (files after : Workspace) : Prop
    extends files.SameSetting after where
  touched : ∀ place, after.tree.get? place = files.tree.get? place ∨ Touches config files after place

theorem frame_write (config : Config) (files : Workspace) :
    Frame config files (write config files).2 := by
  rcases result : write config files with ⟨error | outcome, after⟩
  · obtain ⟨setting, touched⟩ := frame_of_error result
    exact ⟨setting, fun place => (touched place).imp_right .inr⟩
  · obtain ⟨setting, touched⟩ := frame_of_ok result
    refine ⟨setting, fun place => (touched place).imp_right ?_⟩
    exact .imp_right (.imp_right fun ⟨below, gone⟩ => ⟨below, .inl gone⟩)

/-! ### Where nothing was staged -/

/-- No entry stands under the name that the process gives to its staging file. -/
def Unstaged (config : Config) (files : Workspace) : Prop :=
  ∀ entry ∈ files.tree.entries,
    ¬files.placeOf (stagingPath files.process config.helperFile) <+: entry.1

instance (config : Config) (files : Workspace) : Decidable (Unstaged config files) :=
  inferInstanceAs (Decidable (∀ entry ∈ files.tree.entries,
    ¬files.placeOf (stagingPath files.process config.helperFile) <+: entry.1))

omit [Parser] in
theorem get?_of_unstaged (unstaged : Unstaged config files)
    {place : List String} (named : place ≠ [])
    (below : files.placeOf (stagingPath files.process config.helperFile) <+: place) :
    files.tree.get? place = none := by
  rw [FileTree.get?, if_neg (by simpa using named), Option.map_eq_none_iff, List.find?_eq_none]
  intro entry member same
  exact unstaged entry member (beq_iff_eq.mp same ▸ below)

end Helper

end TagMigration
