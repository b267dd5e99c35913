/-
How an attempt to put the helper in place succeeds. The helper is read along its path then: what
was staged is moved to the end of a way that the move leaves alone. From there on it is found
there, and further attempts leave it alone.
-/
import TagMigration.Proofs.Project.HelperFrame

namespace TagMigration

namespace Workspace

/-! ### Ways to a file that was moved -/

/-- All places above a place and the place itself are directories. -/
def Reaches (tree : FileTree) (place : List String) : Prop :=
  ∀ above, above <+: place → tree.get? above = some .directory

theorem Reaches.self {tree : FileTree} {place : List String} (reaches : Reaches tree place) :
    tree.get? place = some .directory :=
  reaches place List.prefix_rfl

theorem Reaches.mono {tree : FileTree} {place above : List String} (reaches : Reaches tree place)
    (isAbove : above <+: place) : Reaches tree above :=
  fun further isFurther => reaches further (isFurther.trans isAbove)

theorem Reaches.enter {tree : FileTree} {place : List String} {name : String}
    (reaches : Reaches tree place) (found : tree.get? (place ++ [name]) = some .directory) :
    Reaches tree (place ++ [name]) := by
  intro above isAbove
  rcases List.prefix_concat_iff.mp isAbove with rfl | isAbove
  · exact found
  · exact reaches above isAbove

/-- The place that relative paths start from is there. -/
def Rooted (files : Workspace) : Prop :=
  Reaches files.tree files.here

/-- A way to a file or to a free name leads to the file that is there once all directories on the
way are. -/
theorem Leads.arrives {tree after : FileTree} {place pieces target : List String} {spot : Spot}
    {content : ByteArray} (leads : Leads tree place pieces spot)
    (isTarget : pieces.foldl step place = target) (reaches : Reaches tree place)
    (noDirectory : tree.get? target ≠ some .directory) (bare : ∀ found, spot ≠ .free found true)
    (stays : ∀ place, Reaches tree place → after.get? place = some .directory)
    (there : after.get? target = some (.file content)) :
    Leads after place pieces (.taken target (.file content)) := by
  induction leads with
  | stop found =>
    rw [List.foldl_nil] at isTarget
    rw [isTarget]
    exact .stop there
  | idle _ isIdle _ inductionHypothesis =>
    rw [List.foldl_cons, step, if_pos isIdle] at isTarget
    exact .idle (stays _ reaches) isIdle (inductionHypothesis isTarget reaches bare)
  | up _ _ inductionHypothesis =>
    exact .up (stays _ reaches)
      (inductionHypothesis isTarget (reaches.mono (List.dropLast_prefix _)) bare)
  | @enter place rest piece entry spot _ isName found more inductionHypothesis =>
    rw [List.foldl_cons, step_name _ isName] at isTarget
    cases entry with
    | directory =>
      have next := reaches.enter found
      exact .enter (stays _ reaches) isName (stays _ next) (inductionHypothesis isTarget next bare)
    | file old =>
      -- A way does not go on from a file.
      have isEnd : place ++ [piece] = target ∧ rest = [] := by
        cases more with
        | stop _ => exact ⟨isTarget, rfl⟩
        | idle inside | up inside | enter inside | free inside =>
          rw [found] at inside
          cases inside
      obtain ⟨rfl, rfl⟩ := isEnd
      exact .enter (stays _ reaches) isName there (.stop there)
  | @free place rest piece _ isName _ empty =>
    cases rest with
    | nil =>
      rw [List.foldl_cons, step_name _ isName, List.foldl_nil] at isTarget
      subst isTarget
      exact .enter (stays _ reaches) isName there (.stop there)
    | cons => exact absurd rfl (bare _)

section Move

variable {files after : Workspace} {source target : Path} {content : ByteArray}

/-- What is read along a path after a change that leaves the directories and puts a file there. -/
theorem read_of_arrives {path : Path} {spot : Spot} (leads : files.locate path = .ok spot)
    (rooted : files.Rooted) (here : after.here = files.here)
    (noDirectory : files.tree.get? (files.placeOf path) ≠ some .directory)
    (bare : ∀ found, spot ≠ .free found true)
    (stays : ∀ place, Reaches files.tree place → after.tree.get? place = some .directory)
    (there : after.tree.get? (files.placeOf path) = some (.file content)) :
    after.read path = .ok content := by
  have starts : Reaches files.tree (if path.isAbsolute then [] else files.here) := by
    split
    · intro above isAbove
      rw [List.prefix_nil.mp isAbove]
      rfl
    · exact rooted
  rw [read, locate, here]
  rw [locate] at leads
  split at leads
  · cases leads
  · split at leads
    · cases leads
    · split at leads
      · cases leads
      · next hasNul isEmpty isLong =>
        have arrives := (leads_of_follow leads).arrives rfl starts noDirectory bare stays there
        rw [if_neg hasNul, if_neg isEmpty, if_neg isLong, arrives.follow]

/-- A file that was moved is read along the path it was moved to. -/
theorem read_of_move (staged : files.locate source =
      .ok (.taken (files.placeOf source) (.file content)))
    (rooted : files.Rooted) (moved : files.moveFile source target = .ok after) :
    after.read target = .ok content := by
  have isStaged := (locate_isAt staged).2
  obtain ⟨moving, spot, isMoving, leads, noDirectory, bare, rfl⟩ := moveFile_cases moved
  obtain rfl : moving = content := by
    rw [staged] at isMoving
    cases isMoving
    rfl
  refine read_of_arrives leads rooted rfl noDirectory bare (fun place reaches => ?_) ?_
  · have other : place ≠ files.placeOf target := fun same => noDirectory (same ▸ reaches.self)
    have outside : ¬files.placeOf source <+: place := by
      intro below
      rw [reaches _ below] at isStaged
      cases isStaged
    rw [FileTree.get?_put_other _ _ _ other, FileTree.get?_erase_other _ _ outside, reaches.self]
  · refine FileTree.get?_put_self _ _ _ fun root => noDirectory ?_
    rw [root]
    rfl

end Move

/-- Where directories were made, those that were there before are still there. -/
theorem Grows.rooted {files after : Workspace} {places : List String → Prop}
    (grows : files.Grows after places) (rooted : files.Rooted) : after.Rooted := by
  intro above isAbove
  rw [grows.here] at isAbove
  rcases grows.grown above with same | ⟨missing, -, -⟩
  · rw [same, rooted above isAbove]
  · rw [rooted above isAbove] at missing
    cases missing

theorem rooted_put {files : Workspace} {place : List String} (rooted : files.Rooted)
    (noDirectory : files.tree.get? place ≠ some .directory) (content : ByteArray) :
    (files.put place (.file content)).Rooted := by
  intro above isAbove
  have directory : files.tree.get? above = some .directory := rooted above isAbove
  have other : above ≠ place := fun same => noDirectory (same ▸ directory)
  exact (files.tree.get?_put_other _ _ other).trans directory

end Workspace

namespace Helper

variable {config : Config} {files : Workspace}

/-! ### Success -/

/-- A content that has the digest of the helper is the helper. -/
def Unforged (config : Config) (files : Workspace) : Prop :=
  ∀ existing, files.read config.helperFile = .ok existing →
    Sha256.hex existing = Sha256.hex content → existing = content

/-- Once the staging file is in place, the helper is read along its path. -/
theorem read_of_place {path : Path} {after : Workspace} (rooted : files.Rooted)
    (placed : place files path = (.ok (), after)) : after.read path = .ok content := by
  obtain ⟨between, written, moved⟩ := exists_of_place placed
  obtain ⟨fits, -, rfl⟩ := Workspace.write_ok written
  exact Workspace.read_of_move (fits.found content)
    (Workspace.rooted_put rooted fits.noDirectory content) moved

theorem isCurrent_of_read {path : Path} (read : files.read path = .ok content) :
    isCurrent files path = true := by
  rw [isCurrent, read]
  exact beq_self_eq_true _

variable [Parser]

/-- A helper that is in place passed the check, and it was there before or was placed once its
directories were made. -/
theorem cases_of_write_ok {outcome : Outcome} {after : Workspace}
    (written : write config files = (.ok outcome, after)) :
    check source = .ok () ∧ (after = files ∧ isCurrent files config.helperFile = true ∨
      ∃ between, prepare files config.helperFile = (.ok (), between) ∧
        place between config.helperFile = (.ok (), after)) := by
  have attempt := attempt_write config files
  rw [written] at attempt
  cases attempt with
  | there current valid => exact ⟨valid, .inl ⟨rfl, current⟩⟩
  | placed valid prepares places => exact ⟨valid, .inr ⟨_, prepares, places⟩⟩

/-- A helper that is in place is read along its path. -/
theorem read_of_write {outcome : Outcome} {after : Workspace} (rooted : files.Rooted)
    (unforged : Unforged config files) (written : write config files = (.ok outcome, after)) :
    after.read config.helperFile = .ok content := by
  rcases (cases_of_write_ok written).2 with ⟨rfl, current⟩ | ⟨between, prepares, places⟩
  · rw [isCurrent] at current
    cases read : after.read config.helperFile with
    | error fault =>
      rw [read] at current
      cases current
    | ok existing =>
      rw [read] at current
      rw [unforged existing read (eq_of_beq current)]
  · exact read_of_place ((grows_of_prepare prepares).rooted rooted) places

/-- A helper whose source passes the check and that is there is left alone. -/
theorem write_of_isCurrent (valid : check source = .ok ())
    (current : isCurrent files config.helperFile = true) :
    write config files =
      (.ok ⟨config.helperFile, .unchanged, Sha256.hex content⟩, files) := by
  rw [write, valid]
  simp only
  rw [install, if_pos current]

end Helper

end TagMigration
