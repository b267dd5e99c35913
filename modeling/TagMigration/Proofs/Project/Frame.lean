/-
What the operations on files leave alone. Each of them finds its way along a path to one
place, the place that the pieces of the path spell out, and touches nothing but the entry
there. So what an operation does is said by two facts: which place it is, and that all other
places keep their entries. An operation that is refused leaves that entry too, unless a writing
was cut off.
-/
import TagMigration.Project.Workspace

namespace TagMigration

/-! ### Entries -/

namespace FileTree

instance decidableIsDirectory (found : Option Entry) : Decidable (found = some .directory) :=
  match found with
  | some .directory => isTrue rfl
  | some (.file _) => isFalse nofun
  | none => isFalse nofun

variable (tree : FileTree) (place : List String) (entry : Entry)

theorem find?_insert_self (entries : List (List String × Entry)) :
    (insert place entry entries).find? (fun found => found.1 == place) = some (place, entry) := by
  induction entries with
  | nil => simp [insert]
  | cons head rest inductionHypothesis =>
    rw [insert]
    by_cases same : head.1 = place
    · rw [if_pos same, List.find?_cons_of_pos (by simp)]
    · rw [if_neg same]
      split
      · rw [List.find?_cons_of_pos (by simp)]
      · rwa [List.find?_cons_of_neg (by simpa using same)]

theorem find?_insert_other {other : List String} (ne : other ≠ place)
    (entries : List (List String × Entry)) :
    (insert place entry entries).find? (fun found => found.1 == other) =
      entries.find? (fun found => found.1 == other) := by
  have skips : (place == other) = false := by simpa using ne.symm
  induction entries with
  | nil => simp only [insert, List.find?_cons, skips]
  | cons head rest inductionHypothesis =>
    rw [insert]
    by_cases same : head.1 = place
    · rw [if_pos same]
      simp only [List.find?_cons, same, skips]
    · rw [if_neg same]
      split
      · simp only [List.find?_cons, skips]
      · simp only [List.find?_cons, inductionHypothesis]

theorem get?_put_self (named : place ≠ []) : (tree.put place entry).get? place = some entry := by
  rw [get?, if_neg (by simpa using named), put, find?_insert_self]
  rfl

theorem get?_put_other {other : List String} (ne : other ≠ place) :
    (tree.put place entry).get? other = tree.get? other := by
  rw [get?, get?, put]
  simp only [find?_insert_other place entry ne]

/-- At and below a place that is erased there is nothing. The root stays. -/
theorem get?_erase_below {other : List String} (below : place <+: other) (named : other ≠ []) :
    (tree.erase place).get? other = none := by
  rw [get?, if_neg (by simpa using named), Option.map_eq_none_iff, List.find?_eq_none]
  rintro ⟨key, found⟩ member same
  have outside := (List.mem_filter.mp member).2
  rw [beq_iff_eq.mp same, List.isPrefixOf_iff_prefix.mpr below] at outside
  cases outside

theorem get?_erase_other {other : List String} (outside : ¬place <+: other) :
    (tree.erase place).get? other = tree.get? other := by
  have stays : (!place.isPrefixOf other) = true := by
    rw [Bool.not_eq_true', Bool.eq_false_iff]
    exact fun isPrefix => outside (List.isPrefixOf_iff_prefix.mp isPrefix)
  have same : (tree.erase place).entries.find? (fun found => found.1 == other) =
      tree.entries.find? (fun found => found.1 == other) := by
    rw [erase, List.find?_filter]
    congr 1
    funext found
    by_cases isOther : found.1 = other
    · simp [isOther, stays]
    · simp [isOther]
  rw [get?, get?, same]

/-- No writing is cut off: a file is written completely, or it stays as it was. -/
def Atomic : Prop :=
  ∀ place size fault, tree.refusals.write place ≠ some (.cut size fault)

/-- A file that was begun at a place may stay there: its writing is cut off, or its removal is
refused. -/
def Lingers : Prop :=
  (∃ size fault, tree.refusals.write place = some (.cut size fault)) ∨
    tree.refusals.remove place ≠ none

end FileTree

/-! ### The setting -/

namespace Workspace

/-- What no operation on files changes: where relative paths start from, the number of the process,
and what the file system refuses. -/
structure SameSetting (files after : Workspace) : Prop where
  here : after.here = files.here
  process : after.process = files.process
  refusals : after.tree.refusals = files.tree.refusals

theorem SameSetting.refl (files : Workspace) : SameSetting files files :=
  ⟨rfl, rfl, rfl⟩

theorem SameSetting.trans {files between after : Workspace} (same : SameSetting files between)
    (further : SameSetting between after) : SameSetting files after :=
  ⟨further.here.trans same.here, further.process.trans same.process,
    further.refusals.trans same.refusals⟩

theorem sameSetting_put (files : Workspace) (place : List String) (entry : FileTree.Entry) :
    SameSetting files (files.put place entry) :=
  ⟨rfl, rfl, rfl⟩

theorem SameSetting.atomic {files after : Workspace} (same : SameSetting files after)
    (atomic : files.tree.Atomic) : after.tree.Atomic := by
  intro place size fault
  rw [same.refusals]
  exact atomic place size fault

/-- The place that a path spells out depends only on where relative paths start from. -/
theorem placeOf_congr {files after : Workspace} (here : after.here = files.here) (path : Path) :
    after.placeOf path = files.placeOf path := by
  rw [placeOf, placeOf, here]

/-! ### Finding the way -/

/-- Whether a piece of a path is a name of admissible size. -/
structure IsName (piece : String) : Prop where
  notIdle : Path.isIdle piece = false
  notUp : piece ≠ ".."
  short : ¬nameLimit < piece.utf8ByteSize

/-- The ways along pieces that lead somewhere: through directories, to an entry or to a free
name. -/
inductive Leads (tree : FileTree) : List String → List String → Spot → Prop where
  | stop {place : List String} {entry : FileTree.Entry} (found : tree.get? place = some entry) :
    Leads tree place [] (.taken place entry)
  | idle {place rest : List String} {piece : String} {spot : Spot}
    (inside : tree.get? place = some .directory) (isIdle : Path.isIdle piece = true)
    (more : Leads tree place rest spot) : Leads tree place (piece :: rest) spot
  | up {place rest : List String} {spot : Spot} (inside : tree.get? place = some .directory)
    (more : Leads tree place.dropLast rest spot) : Leads tree place (".." :: rest) spot
  | enter {place rest : List String} {piece : String} {entry : FileTree.Entry} {spot : Spot}
    (inside : tree.get? place = some .directory) (isName : IsName piece)
    (found : tree.get? (place ++ [piece]) = some entry)
    (more : Leads tree (place ++ [piece]) rest spot) : Leads tree place (piece :: rest) spot
  | free {place rest : List String} {piece : String} (inside : tree.get? place = some .directory)
    (isName : IsName piece) (missing : tree.get? (place ++ [piece]) = none)
    (empty : rest.all (· == "") = true) :
    Leads tree place (piece :: rest) (.free (place ++ [piece]) (!rest.isEmpty))

theorem leads_of_follow {tree : FileTree} {place pieces : List String} {spot : Spot}
    (leads : follow tree place pieces = .ok spot) : Leads tree place pieces spot := by
  fun_induction follow tree place pieces with
  | case1 place entry found =>
    cases leads
    exact .stop found
  | case5 place piece rest inside isIdle inductionHypothesis =>
    exact .idle inside isIdle (inductionHypothesis leads)
  | case6 place rest inside notIdle inductionHypothesis =>
    exact .up inside (inductionHypothesis leads)
  | case8 place piece rest inside notIdle notUp short next entry found inductionHypothesis =>
    exact .enter inside ⟨Bool.eq_false_iff.mpr notIdle, notUp, short⟩ found
      (inductionHypothesis leads)
  | case9 place piece rest inside notIdle notUp short next missing empty =>
    cases leads
    exact .free inside ⟨Bool.eq_false_iff.mpr notIdle, notUp, short⟩ missing empty
  | _ => cases leads

theorem Leads.follow {tree : FileTree} {place pieces : List String} {spot : Spot}
    (leads : Leads tree place pieces spot) : follow tree place pieces = .ok spot := by
  induction leads with
  | stop found => simp only [Workspace.follow, found]
  | idle inside isIdle _ inductionHypothesis =>
    simp only [Workspace.follow, inside, isIdle, if_true, inductionHypothesis]
  | up inside _ inductionHypothesis =>
    simpa [Workspace.follow, inside, Path.isIdle] using inductionHypothesis
  | enter inside isName found _ inductionHypothesis =>
    simp [Workspace.follow, inside, isName.notIdle, isName.notUp, isName.short, found,
      inductionHypothesis]
  | free inside isName missing empty =>
    simp [Workspace.follow, inside, isName.notIdle, isName.notUp, isName.short, missing, empty]

/-- The place that a piece leads to from a place. -/
def step (place : List String) (piece : String) : List String :=
  if Path.isIdle piece then place
  else if piece = ".." then place.dropLast
  else place ++ [piece]

theorem step_name (place : List String) {piece : String} (isName : IsName piece) :
    step place piece = place ++ [piece] := by
  rw [step, isName.notIdle, if_neg isName.notUp]
  rfl

theorem foldl_step_of_empty (place : List String) {pieces : List String}
    (empty : pieces.all (· == "") = true) : pieces.foldl step place = place := by
  induction pieces with
  | nil => rfl
  | cons piece rest inductionHypothesis =>
    rw [List.all_cons, Bool.and_eq_true, beq_iff_eq] at empty
    rw [List.foldl_cons, empty.1]
    exact inductionHypothesis empty.2

/-- A spot is at a place, with the entry that stands there. -/
def Spot.IsAt (tree : FileTree) (place : List String) : Spot → Prop
  | .taken found entry => found = place ∧ tree.get? place = some entry
  | .free found _ => found = place ∧ tree.get? place = none

/-- A way leads to the place that its pieces spell out. -/
theorem Leads.isAt {tree : FileTree} {place pieces : List String} {spot : Spot}
    (leads : Leads tree place pieces spot) : spot.IsAt tree (pieces.foldl step place) := by
  induction leads with
  | stop found => exact ⟨rfl, found⟩
  | idle inside isIdle _ inductionHypothesis =>
    rwa [List.foldl_cons, step, if_pos isIdle]
  | up inside _ inductionHypothesis => exact inductionHypothesis
  | enter inside isName found _ inductionHypothesis =>
    rwa [List.foldl_cons, step_name _ isName]
  | free inside isName missing empty =>
    rw [List.foldl_cons, step_name _ isName, foldl_step_of_empty _ empty]
    exact ⟨rfl, missing⟩

/-- A way to a file or to a free name leads to the file that is put there. Before its end it goes
through directories only, which stay as they are. -/
theorem Leads.put {tree : FileTree} {place pieces target : List String} {spot : Spot}
    (leads : Leads tree place pieces spot) (isTarget : pieces.foldl step place = target)
    (noDirectory : tree.get? target ≠ some .directory) (bare : ∀ found, spot ≠ .free found true)
    (content : ByteArray) :
    Leads (tree.put target (.file content)) place pieces (.taken target (.file content)) := by
  have there : (tree.put target (.file content)).get? target = some (.file content) :=
    tree.get?_put_self target _ fun root => noDirectory (root ▸ rfl)
  have onTheWay {place : List String} (inside : tree.get? place = some .directory) :
      (tree.put target (.file content)).get? place = some .directory := by
    rw [tree.get?_put_other target _ fun same => noDirectory (same ▸ inside), inside]
  induction leads with
  | stop found =>
    rw [List.foldl_nil] at isTarget
    rw [isTarget]
    exact .stop there
  | idle inside isIdle _ inductionHypothesis =>
    rw [List.foldl_cons, step, if_pos isIdle] at isTarget
    exact .idle (onTheWay inside) isIdle (inductionHypothesis isTarget bare)
  | up inside _ inductionHypothesis =>
    exact .up (onTheWay inside) (inductionHypothesis isTarget bare)
  | @enter place rest piece entry spot inside isName found _ inductionHypothesis =>
    rw [List.foldl_cons, step_name _ isName] at isTarget
    have further := inductionHypothesis isTarget bare
    by_cases same : place ++ [piece] = target
    · exact .enter (onTheWay inside) isName (by rw [same]; exact there) further
    · exact .enter (onTheWay inside) isName ((tree.get?_put_other target _ same).trans found) further
  | @free place rest piece inside isName missing empty =>
    cases rest with
    | nil =>
      rw [List.foldl_cons, step_name _ isName, List.foldl_nil] at isTarget
      have found : (tree.put target (.file content)).get? (place ++ [piece]) =
          some (.file content) := by rw [isTarget, there]
      exact .enter (onTheWay inside) isName found (by rw [isTarget]; exact .stop there)
    | cons => exact absurd rfl (bare _)

theorem locate_isAt {files : Workspace} {path : Path} {spot : Spot}
    (leads : files.locate path = .ok spot) : spot.IsAt files.tree (files.placeOf path) := by
  rw [locate] at leads
  split at leads
  · cases leads
  · split at leads
    · cases leads
    · split at leads
      · cases leads
      · exact (leads_of_follow leads).isAt

/-- A file that was written is found along the path it was written to. -/
theorem locate_put {files : Workspace} {path : Path} {spot : Spot}
    (leads : files.locate path = .ok spot)
    (noDirectory : files.tree.get? (files.placeOf path) ≠ some .directory)
    (bare : ∀ found, spot ≠ .free found true) (content : ByteArray) :
    (files.put (files.placeOf path) (.file content)).locate path =
      .ok (.taken (files.placeOf path) (.file content)) := by
  rw [locate] at leads ⊢
  split at leads
  · cases leads
  · split at leads
    · cases leads
    · split at leads
      · cases leads
      · next hasNul isEmpty isLong =>
        rw [if_neg hasNul, if_neg isEmpty, if_neg isLong]
        exact ((leads_of_follow leads).put rfl noDirectory bare content).follow

/-! ### Writing -/

/-- A path fits a file: it leads to one or to a free name, so a file that is put there is found. -/
structure Fits (files : Workspace) (path : Path) : Prop where
  noDirectory : files.tree.get? (files.placeOf path) ≠ some .directory
  found : ∀ content, (files.put (files.placeOf path) (.file content)).locate path =
    .ok (.taken (files.placeOf path) (.file content))

section Write

variable {files after : Workspace} {path : Path} {content : ByteArray} {fault : FileFault}

theorem fits_of_taken {place : List String} {old : ByteArray}
    (leads : files.locate path = .ok (.taken place (.file old))) :
    files.Fits path ∧ place = files.placeOf path := by
  obtain ⟨rfl, found⟩ := locate_isAt leads
  have noDirectory : files.tree.get? (files.placeOf path) ≠ some .directory := by simp [found]
  exact ⟨⟨noDirectory, locate_put leads noDirectory (by simp)⟩, rfl⟩

theorem fits_of_free {place : List String} (leads : files.locate path = .ok (.free place false)) :
    files.Fits path ∧ place = files.placeOf path := by
  obtain ⟨rfl, missing⟩ := locate_isAt leads
  have noDirectory : files.tree.get? (files.placeOf path) ≠ some .directory := by simp [missing]
  exact ⟨⟨noDirectory, locate_put leads noDirectory (by simp)⟩, rfl⟩

/-- Either the way fails, or the file at its end is filled as far as it can be. -/
theorem write_cases (files : Workspace) (path : Path) (content : ByteArray) :
    (∃ fault, files.write path content = (.error fault, files)) ∨
      files.Fits path ∧ files.write path content = files.fill (files.placeOf path) content := by
  rw [write]
  split
  · next leads =>
    obtain ⟨fits, rfl⟩ := fits_of_taken leads
    exact .inr ⟨fits, rfl⟩
  · exact .inl ⟨_, rfl⟩
  · next leads =>
    obtain ⟨fits, rfl⟩ := fits_of_free leads
    exact .inr ⟨fits, rfl⟩
  · exact .inl ⟨_, rfl⟩
  · exact .inl ⟨_, rfl⟩

/-- Writing puts a file where the path leads. -/
theorem write_ok (written : files.write path content = (.ok (), after)) :
    files.Fits path ∧ files.tree.refusals.write (files.placeOf path) = none ∧
      after = files.put (files.placeOf path) (.file content) := by
  rcases write_cases files path content with ⟨fault, failed⟩ | ⟨fits, fills⟩
  · rw [failed] at written
    cases written
  · rw [fills, fill] at written
    split at written
    · next noRefusal =>
      cases written
      exact ⟨fits, noRefusal, rfl⟩
    · cases written
    · cases written

/-- A failed writing leaves everything as it was, or a beginning of what was to be written. -/
theorem write_error (failed : files.write path content = (.error fault, after)) :
    after = files ∨
      ∃ size, files.tree.refusals.write (files.placeOf path) = some (.cut size fault) ∧
        after = files.put (files.placeOf path) (.file (content.extract 0 size)) := by
  rcases write_cases files path content with ⟨other, fails⟩ | ⟨fits, fills⟩
  · rw [fails] at failed
    cases failed
    exact .inl rfl
  · rw [fills, fill] at failed
    split at failed
    · cases failed
    · cases failed
      exact .inl rfl
    · next isCut =>
      cases failed
      exact .inr ⟨_, isCut, rfl⟩

theorem createDirectory_eq (created : files.createDirectory path = .ok after) :
    after = files.put (files.placeOf path) .directory ∧
      files.tree.get? (files.placeOf path) = none := by
  rw [createDirectory] at created
  split at created
  · cases created
  · next place slash leads =>
    obtain ⟨rfl, missing⟩ := locate_isAt leads
    split at created
    · exact ⟨(Except.ok.inj created).symm, missing⟩
    · cases created
  · cases created

theorem carry_eq {old new : List String} (carried : files.carry old new content = .ok after) :
    after = { files with tree := (files.tree.erase old).put new (.file content) } := by
  rw [carry] at carried
  split at carried
  · exact (Except.ok.inj carried).symm
  · cases carried

/-- A file that was moved is gone from one path and stands at the other, which leads to a file or to
a free name. -/
theorem moveFile_cases {source target : Path} (moved : files.moveFile source target = .ok after) :
    ∃ content spot, files.locate source = .ok (.taken (files.placeOf source) (.file content)) ∧
      files.locate target = .ok spot ∧
      files.tree.get? (files.placeOf target) ≠ some .directory ∧
      (∀ found, spot ≠ .free found true) ∧
      after = { files with
        tree := (files.tree.erase (files.placeOf source)).put (files.placeOf target)
          (.file content) } := by
  rw [moveFile] at moved
  split at moved
  · next old content leads =>
    obtain ⟨rfl, -⟩ := locate_isAt leads
    split at moved
    · next place previous leadsThere =>
      obtain ⟨fits, rfl⟩ := fits_of_taken leadsThere
      exact ⟨content, _, leads, leadsThere, fits.noDirectory, nofun, carry_eq moved⟩
    · split at moved
      · cases moved
      · split at moved <;> cases moved
    · next place leadsThere =>
      obtain ⟨fits, rfl⟩ := fits_of_free leadsThere
      exact ⟨content, _, leads, leadsThere, fits.noDirectory, nofun, carry_eq moved⟩
    · cases moved
    · cases moved
  · cases moved
  · cases moved
  · cases moved

/-- What is removed is gone with all below it, unless its removal is refused. -/
theorem remove_cases {place : List String} {entry : FileTree.Entry}
    (leads : files.locate path = .ok (.taken place entry)) :
    files.tree.refusals.remove place = none ∧
        files.remove path = (true, { files with tree := files.tree.erase place }) ∨
      files.tree.refusals.remove place ≠ none ∧ files.remove path = (false, files) := by
  rw [remove, leads]
  simp only
  cases refusal : files.tree.refusals.remove place with
  | none => exact .inl ⟨rfl, rfl⟩
  | some fault => exact .inr ⟨nofun, rfl⟩

end Write

end Workspace

end TagMigration
