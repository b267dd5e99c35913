/-
New contents for files. A run reads a file and may put new content in its place, and that is all
it does to the files: the directories and the names stay, so every path leads where it led. Hence
what a run makes of a file depends only on the content of that file and on whether it can be
written, and it is settled file by file, each by what is said about a single content.
-/
import TagMigration.Project.Run
import TagMigration.Proofs.Project.Entries
import TagMigration.Proofs.Project.Frame

namespace TagMigration

/-! ### Ways past a file -/

namespace Workspace

/-- The spot, with new content if it is at the place of a file that got it. -/
def Spot.refill (target : List String) (content : ByteArray) : Spot → Spot
  | .taken place entry => .taken place (if place = target then .file content else entry)
  | .free place slash => .free place slash

section Refill

variable {files : Workspace} {target : List String} {old : ByteArray}

theorem ne_nil_of_file {tree : FileTree} (there : tree.get? target = some (.file old)) :
    target ≠ [] := by
  rintro rfl
  cases there

/-- New content for a file changes no way. -/
theorem follow_put {tree : FileTree} (there : tree.get? target = some (.file old))
    (content : ByteArray) (place pieces : List String) :
    follow (tree.put target (.file content)) place pieces =
      (follow tree place pieces).map (Spot.refill target content) := by
  have self := tree.get?_put_self target (.file content) (ne_nil_of_file there)
  have other {place : List String} (ne : place ≠ target) :
      (tree.put target (.file content)).get? place = tree.get? place :=
    tree.get?_put_other target _ ne
  have inside {place : List String} (directory : tree.get? place = some .directory) :
      (tree.put target (.file content)).get? place = some .directory := by
    rw [other fun same => ?_, directory]
    rw [same, there] at directory
    cases directory
  have outside {place : List String} (missing : tree.get? place = none) :
      (tree.put target (.file content)).get? place = none := by
    rw [other fun same => ?_, missing]
    rw [same, there] at missing
    cases missing
  fun_induction follow tree place pieces with
  | case1 place entry found =>
    by_cases same : place = target
    · subst same
      rw [follow, self]
      simp [Except.map, Spot.refill]
    · rw [follow, other same, found]
      simp [Except.map, Spot.refill, same]
  | case2 place missing =>
    rw [follow, outside missing]
    rfl
  | case3 place piece rest missing =>
    rw [follow, outside missing]
    rfl
  | case4 place piece rest stands found =>
    by_cases same : place = target
    · rw [follow, same, self]
      rfl
    · rw [follow, other same, found]
      rfl
  | case5 place piece rest directory idle inductionHypothesis =>
    rw [follow, inside directory]
    simp only [idle, if_true, inductionHypothesis]
  | case6 place rest directory notIdle inductionHypothesis =>
    rw [follow, inside directory]
    simp only [notIdle, if_true, inductionHypothesis]
    rfl
  | case7 place piece rest directory notIdle notUp long =>
    rw [follow, inside directory]
    simp only [notIdle, notUp, long, if_true, if_false]
    rfl
  | case8 place piece rest directory notIdle notUp short next entry found inductionHypothesis =>
    rw [follow, inside directory]
    simp only [notIdle, notUp, short, if_false]
    by_cases same : next = target
    · rw [show place ++ [piece] = target from same, self]
      simpa [next, same] using inductionHypothesis
    · rw [other same, found]
      exact inductionHypothesis
  | case9 place piece rest directory notIdle notUp short next missing empty =>
    have free : (tree.put target (.file content)).get? (place ++ [piece]) = none := outside missing
    rw [follow, inside directory]
    simp only [notIdle, notUp, short, if_false, free, empty, if_true]
    rfl
  | case10 place piece rest directory notIdle notUp short next missing more =>
    have free : (tree.put target (.file content)).get? (place ++ [piece]) = none := outside missing
    rw [follow, inside directory]
    simp only [notIdle, notUp, short, if_false, free, more]
    rfl

theorem locate_put_file (there : files.tree.get? target = some (.file old)) (content : ByteArray)
    (path : Path) : (files.put target (.file content)).locate path =
      (files.locate path).map (Spot.refill target content) := by
  unfold locate
  split
  · rfl
  · split
    · rfl
    · split
      · rfl
      · exact follow_put there content _ _

/-- A path that does not lead to the file leads where it led. -/
theorem locate_put_other (there : files.tree.get? target = some (.file old)) (content : ByteArray)
    {path : Path} (ne : files.placeOf path ≠ target) :
    (files.put target (.file content)).locate path = files.locate path := by
  rw [locate_put_file there]
  cases leads : files.locate path with
  | error fault => rfl
  | ok spot =>
    cases spot with
    | free place slash => rfl
    | taken place entry =>
      obtain ⟨rfl, -⟩ := locate_isAt leads
      simp only [Except.map, Spot.refill, if_neg ne]

theorem read_put_other (there : files.tree.get? target = some (.file old)) (content : ByteArray)
    {path : Path} (ne : files.placeOf path ≠ target) :
    (files.put target (.file content)).read path = files.read path := by
  rw [read, read, locate_put_other there content ne]

/-- A path that leads to the file finds the new content. -/
theorem read_put_at {path : Path} (there : files.tree.get? (files.placeOf path) = some (.file old))
    (content : ByteArray) : (files.put (files.placeOf path) (.file content)).read path =
      (files.read path).map fun _ => content := by
  rw [read, read, locate_put_file there]
  cases leads : files.locate path with
  | error fault => rfl
  | ok spot =>
    cases spot with
    | free place slash => rfl
    | taken place entry =>
      obtain ⟨rfl, found⟩ := locate_isAt leads
      rw [there] at found
      cases found
      simp only [Except.map, Spot.refill, if_true]

theorem directory?_put_file (there : files.tree.get? target = some (.file old))
    (content : ByteArray) (path : Path) :
    (files.put target (.file content)).directory? path = files.directory? path := by
  rw [directory?, directory?, locate_put_file there]
  cases leads : files.locate path with
  | error fault => rfl
  | ok spot =>
    cases spot with
    | free place slash => rfl
    | taken place entry =>
      obtain ⟨rfl, found⟩ := locate_isAt leads
      by_cases same : files.placeOf path = target
      · rw [same, there] at found
        cases found
        simp [Except.map, Spot.refill, same]
      · simp only [Except.map, Spot.refill, if_neg same]

end Refill

/-! ### Reading -/

section Read

variable {files : Workspace} {path : Path} {content : ByteArray}

/-- What is read along a path stands at the place that the path spells out. -/
theorem read_eq_ok : files.read path = .ok content ↔
    files.locate path = .ok (.taken (files.placeOf path) (.file content)) := by
  constructor
  · intro read
    rw [Workspace.read] at read
    split at read
    · next place found leads =>
      obtain ⟨rfl, -⟩ := locate_isAt leads
      cases read
      exact leads
    · cases read
    · cases read
    · cases read
  · intro leads
    rw [Workspace.read, leads]

theorem get?_of_read (read : files.read path = .ok content) :
    files.tree.get? (files.placeOf path) = some (.file content) :=
  (locate_isAt (read_eq_ok.mp read)).2

/-- A file that can be read is filled when it is written, as far as that is possible. -/
theorem write_of_read (read : files.read path = .ok content) (new : ByteArray) :
    files.write path new = files.fill (files.placeOf path) new := by
  rw [write, read_eq_ok.mp read]

end Read

/-! ### Files with other contents -/

/-- Between two states of the files nothing has changed but the contents of files: paths lead to
the same directories and to the same files, and the same places have files. -/
structure Refilled (files after : Workspace) : Prop extends SameSetting files after where
  directory : ∀ path, after.directory? path = files.directory? path
  readable : ∀ path, (∃ content, after.read path = .ok content) ↔
    ∃ content, files.read path = .ok content
  file : ∀ place, (∃ content, after.tree.get? place = some (.file content)) ↔
    ∃ content, files.tree.get? place = some (.file content)
  ordered : files.tree.Ordered → after.tree.Ordered

theorem refilled_refl (files : Workspace) : Refilled files files :=
  ⟨.refl files, fun _ => rfl, fun _ => .rfl, fun _ => .rfl, id⟩

theorem Refilled.trans {files between after : Workspace} (refilled : Refilled files between)
    (further : Refilled between after) : Refilled files after where
  toSameSetting := refilled.toSameSetting.trans further.toSameSetting
  directory path := (further.directory path).trans (refilled.directory path)
  readable path := (further.readable path).trans (refilled.readable path)
  file place := (further.file place).trans (refilled.file place)
  ordered := further.ordered ∘ refilled.ordered

/-- What is read along a path that led to a file. -/
theorem Refilled.read {files after : Workspace} (refilled : Refilled files after) {path : Path}
    (readable : ∃ content, files.read path = .ok content) {content : ByteArray}
    (found : after.tree.get? (files.placeOf path) = some (.file content)) :
    after.read path = .ok content := by
  obtain ⟨new, read⟩ := (refilled.readable path).mpr readable
  have there := get?_of_read read
  rw [placeOf, refilled.here] at there
  rw [placeOf] at found
  rw [there] at found
  cases found
  exact read

theorem refilled_put {files : Workspace} {path : Path} {old : ByteArray}
    (read : files.read path = .ok old) (new : ByteArray) :
    Refilled files (files.put (files.placeOf path) (.file new)) := by
  have there := get?_of_read read
  refine ⟨files.sameSetting_put _ _, directory?_put_file there new, fun other => ?_, fun place => ?_,
    fun ordered => ordered.put _ _⟩
  · by_cases same : files.placeOf other = files.placeOf path
    · rw [← same] at there ⊢
      rw [read_put_at there]
      cases files.read other with
      | error fault => exact iff_of_false nofun nofun
      | ok content => exact ⟨fun _ => ⟨content, rfl⟩, fun _ => ⟨new, rfl⟩⟩
    · rw [read_put_other there new same]
  · by_cases same : place = files.placeOf path
    · subst same
      have self := files.tree.get?_put_self _ (.file new) (ne_nil_of_file there)
      exact ⟨fun _ => ⟨old, there⟩, fun _ => ⟨new, self⟩⟩
    · rw [put, files.tree.get?_put_other _ _ same]

end Workspace

/-! ### What a pass makes of a content -/

namespace Run

variable (config : Config) (pass : Template → PassResult)

/-- The entry of a file whose new content has to be written, and what the file holds then if it is
not what it held before. -/
def delivery (path : Path) (report : FileReport) (content : ByteArray) :
    Option FileTree.Refusal → FileReport × Option ByteArray
  | none => (report, some content)
  | some (.closed fault) => (failed config path (.file path.text fault), none)
  | some (.cut size fault) =>
    (failed config path (.file path.text fault), some (content.extract 0 size))

/-- The entry of a template file and, if the file is changed, its new content, given how writing it
is refused and what was read of it. -/
def verdict (path : Path) (refusal : Option FileTree.Refusal) :
    Except FileFault ByteArray → FileReport × Option ByteArray
  | .error fault => (failed config path (.file path.text fault), none)
  | .ok content =>
    match String.fromUTF8? content with
    | none => (failed config path (.file path.text .notText), none)
    | some source =>
      match transform pass source (config.identityFor path) with
      | .error error => (failed config path error, none)
      | .ok (code, changes) =>
        let report (status : FileStatus) : FileReport :=
          ⟨path, config.identityFor path, status, changes, some (Sha256.hex source.toUTF8),
            some (Sha256.hex code.toUTF8)⟩
        if code = source ∧ config.writeUnchanged = false then (report .unchanged, none)
        else delivery config path (report .written) code.toUTF8 refusal

/-- The files with new content, if there is any, for the file that a path leads to. -/
def renew (files : Workspace) (path : Path) : Option ByteArray → Workspace
  | none => files
  | some content => files.put (files.placeOf path) (.file content)

/-- How writing a file along a path is refused, if it is. -/
def refusal? (files : Workspace) (path : Path) : Option FileTree.Refusal :=
  files.tree.refusals.write (files.placeOf path)

theorem refusal?_congr {files after : Workspace} (same : files.SameSetting after) (path : Path) :
    refusal? after path = refusal? files path := by
  rw [refusal?, refusal?, same.refusals, Workspace.placeOf_congr same.here]

/-- What becomes of a file is decided by what is read of it and how writing it is refused. -/
theorem processFile_eq (files : Workspace) (path : Path) :
    processFile config pass files path =
      let done := verdict config pass path (refusal? files path) (files.read path)
      (done.1, renew files path done.2) := by
  rw [processFile, Workspace.readText]
  cases read : files.read path with
  | error fault => rfl
  | ok content =>
    simp only [verdict]
    cases String.fromUTF8? content with
    | none => rfl
    | some source =>
      simp only
      cases transform pass source (config.identityFor path) with
      | error error => rfl
      | ok made =>
        obtain ⟨code, changes⟩ := made
        simp only
        split
        · rfl
        · rw [Workspace.write_of_read read, Workspace.fill, refusal?]
          obtain _ | ⟨fault⟩ | ⟨size, fault⟩ := files.tree.refusals.write (files.placeOf path) <;>
            rfl

/-! ### What a run makes of a file -/

variable (pass : Path → Template → PassResult)

/-- The entry of a file, whether it is a template or not, and its new content. -/
def handle (path : Path) (refusal : Option FileTree.Refusal) (read : Except FileFault ByteArray) :
    FileReport × Option ByteArray :=
  if config.isEligible path then verdict config (pass path) path refusal read
  else (skipped config path, none)

/-- What a run makes of the file at a path. -/
def treatment (files : Workspace) (path : Path) : FileReport × Option ByteArray :=
  handle config pass path (refusal? files path) (files.read path)

/-- The files after one path of a run. -/
def proceed (files : Workspace) (path : Path) : Workspace :=
  renew files path (treatment config pass files path).2

theorem processAll_cons (files : Workspace) (path : Path) (rest : List Path) :
    processAll config pass files (path :: rest) =
      let more := processAll config pass (proceed config pass files path) rest
      ((treatment config pass files path).1 :: more.1, more.2) := by
  rw [processAll, proceed, treatment, handle]
  cases config.isEligible path with
  | false => rfl
  | true => simp only [if_true, processFile_eq]

section Proceed

variable {config pass} {files : Workspace} {path other : Path}

/-- One path of a run leaves the files alone, or it puts new content in place of what was read. -/
theorem proceed_cases (config : Config) (pass : Path → Template → PassResult) (files : Workspace)
    (path : Path) :
    (treatment config pass files path).2 = none ∧ proceed config pass files path = files ∨
      ∃ old new, files.read path = .ok old ∧ (treatment config pass files path).2 = some new ∧
        proceed config pass files path = files.put (files.placeOf path) (.file new) := by
  rw [proceed]
  cases made : (treatment config pass files path).2 with
  | none => exact .inl ⟨rfl, rfl⟩
  | some new =>
    cases read : files.read path with
    | error fault =>
      rw [treatment, read, handle] at made
      split at made <;> cases made
    | ok old => exact .inr ⟨old, new, rfl, rfl, rfl⟩

theorem refilled_proceed : files.Refilled (proceed config pass files path) := by
  rcases proceed_cases config pass files path with ⟨-, same⟩ | ⟨old, new, read, -, changed⟩
  · rw [same]
    exact Workspace.refilled_refl files
  · rw [changed]
    exact Workspace.refilled_put read new

theorem get?_proceed_other {place : List String} (ne : place ≠ files.placeOf path) :
    (proceed config pass files path).tree.get? place = files.tree.get? place := by
  rcases proceed_cases config pass files path with ⟨-, same⟩ | ⟨old, new, -, -, changed⟩
  · rw [same]
  · rw [changed]
    exact files.tree.get?_put_other _ _ ne

theorem read_proceed_other (ne : files.placeOf other ≠ files.placeOf path) :
    (proceed config pass files path).read other = files.read other := by
  rcases proceed_cases config pass files path with ⟨-, same⟩ | ⟨old, new, read, -, changed⟩
  · rw [same]
  · rw [changed]
    exact Workspace.read_put_other (Workspace.get?_of_read read) new ne

/-- What a run makes of a file does not depend on what it has made of files at other places. -/
theorem treatment_proceed_other (ne : files.placeOf other ≠ files.placeOf path) :
    treatment config pass (proceed config pass files path) other =
      treatment config pass files other := by
  rw [treatment, treatment, refusal?_congr refilled_proceed.toSameSetting, read_proceed_other ne]

/-- Paths to different places may be gone through in any order. -/
theorem proceed_comm (ne : files.placeOf path ≠ files.placeOf other) :
    proceed config pass (proceed config pass files path) other =
      proceed config pass (proceed config pass files other) path := by
  have left : proceed config pass (proceed config pass files path) other =
      renew (proceed config pass files path) other (treatment config pass files other).2 := by
    rw [proceed, treatment_proceed_other ne.symm]
  have right : proceed config pass (proceed config pass files other) path =
      renew (proceed config pass files other) path (treatment config pass files path).2 := by
    rw [proceed, treatment_proceed_other ne]
  rw [left, right, proceed, proceed]
  cases (treatment config pass files path).2 with
  | none => rfl
  | some content =>
    cases (treatment config pass files other).2 with
    | none => rfl
    | some more =>
      exact congrArg (fun tree => { files with tree := tree })
        (files.tree.put_comm ne (.file content) (.file more))

end Proceed

end Run

end TagMigration
