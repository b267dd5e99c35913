/-
What a run over the files of a project touches. The three runs share one shape: the paths are
expanded once, and then processed one after the other, each on what the last has left. A step
reports on its path and, as long as no writing is cut off, changes a file only if it reports it as
written; a run that instruments also puts the helper in place, before the first template. From the
steps follows what a whole run does, whatever fails on the way.
-/
import TagMigration.Proofs.Project.HelperFrame
import TagMigration.Proofs.Project.HelperState

namespace TagMigration

/-- The runs over the files of a project. -/
inductive Batch where
  | instrument
  | strip
  | migrate (aggregate : Aggregate)

namespace Batch

/-- What a run does to a template that it finds along a path. -/
def pass (config : Config) (path : Path) : Batch → Template → PassResult
  | .instrument => Template.instrument
  | .strip => Template.strip
  | .migrate aggregate =>
    fun template => template.migrate (aggregate.confirmedFor (config.identityFor path))

section Process

variable [Helper.Parser]

/-- A run over the files that paths stand for. -/
def run (config : Config) (files : Workspace) (paths : List Path) : Batch → RunReport × Workspace
  | .instrument => Run.instrument config files paths
  | .strip => Run.strip config files paths
  | .migrate aggregate => Run.migrate config aggregate files paths

/-- What a run makes of files one after the other, given what it knows of the helper. -/
def process (config : Config) (state : Run.HelperState) (files : Workspace) (paths : List Path) :
    Batch → List FileReport × Run.HelperState × Workspace
  | .instrument => Run.instrumentAll config state files paths
  | .strip =>
    let (reports, files) := Run.processAll config (fun _ => Template.strip) files paths
    (reports, state, files)
  | .migrate aggregate =>
    let (reports, files) := Run.processAll config
      (fun path template => template.migrate (aggregate.confirmedFor (config.identityFor path)))
      files paths
    (reports, state, files)

/-- What a run knows of the helper, and the files as it finds them, when it comes to a template behind
other paths: these have left their files, and a run that instruments has tried the helper. -/
def meet (config : Config) (files : Workspace) (first : List Path) (batch : Batch) :
    Run.HelperState × Workspace :=
  let early := batch.process config .pending files first
  match batch with
  | .instrument => early.2.1.settle config early.2.2
  | .strip => early.2
  | .migrate _ => early.2

variable (config : Config) (state : Run.HelperState) (files : Workspace) (batch : Batch)

/-- A run processes the files that the paths stand for before it begins. -/
theorem run_eq (paths : List Path) :
    let processed := batch.process config .pending files (Run.expand config files paths)
    (batch.run config files paths).1.files = processed.1 ∧
      (batch.run config files paths).2 = processed.2.2 := by
  cases batch <;> exact ⟨rfl, rfl⟩

/-! ### Path by path -/

theorem process_nil : batch.process config state files [] = ([], state, files) := by
  cases batch <;> rfl

theorem process_cons (path : Path) (rest : List Path) :
    batch.process config state files (path :: rest) =
      let one := batch.process config state files [path]
      let more := batch.process config one.2.1 one.2.2 rest
      (one.1 ++ more.1, more.2) := by
  cases batch with
  | instrument =>
    simp only [process, Run.instrumentAll]
    split <;> rfl
  | strip => rfl
  | migrate aggregate => rfl

/-- The files at the end of a list are processed on what the others have left, whatever became of
them. -/
theorem process_append (first rest : List Path) :
    batch.process config state files (first ++ rest) =
      let early := batch.process config state files first
      let late := batch.process config early.2.1 early.2.2 rest
      (early.1 ++ late.1, late.2) := by
  induction first generalizing state files with
  | nil => simp only [List.nil_append, process_nil]
  | cons path more inductionHypothesis =>
    rw [List.cons_append, process_cons, process_cons _ _ _ _ path more]
    simp only [inductionHypothesis, List.append_assoc]

/-- The run makes of a template what its pass makes of the file that it finds there, unless it
instruments and could not put the helper in place. -/
theorem process_template (first rest : List Path) {path : Path}
    (eligible : config.isEligible path = true)
    (installs : batch = .instrument → (Helper.write config files).1.isOk = true) :
    let met := batch.meet config files first
    let done := Run.processFile config (batch.pass config path) met.2 path
    let late := batch.process config met.1 done.2 rest
    batch.process config .pending files (first ++ path :: rest) =
      ((batch.process config .pending files first).1 ++ done.1 :: late.1, late.2) := by
  rw [process_append]
  cases batch with
  | instrument =>
    obtain ⟨outcome, written⟩ := Helper.exists_of_isOk (installs rfl)
    have isReady := Run.settle_instrumentAll config files written first
    simp only [process, meet, pass]
    rw [Run.instrumentAll_cons_of_ready eligible isReady]
  | strip => simp only [process, Run.processAll, if_pos eligible, pass, meet]
  | migrate aggregate => simp only [process, Run.processAll, if_pos eligible, pass, meet]

/-! ### One path -/

/-- What becomes of one file. Unless a writing is cut off, either its entry does not say that it was
written and nothing has changed, or it does and the file at the path has new content. -/
structure Reported (path : Path) (files : Workspace) (done : FileReport × Workspace) : Prop where
  isPath : done.1.path = path
  setting : files.SameSetting done.2
  effect : files.tree.Atomic → done.1.status ≠ .written ∧ done.2 = files ∨
    done.1.status = .written ∧ ∃ content, done.2 = files.put (files.placeOf path) (.file content)

end Process

section Step

variable (config : Config) {files : Workspace}

theorem reported_failed (path : Path) (error : Error) :
    Reported path files (Run.failed config path error, files) :=
  ⟨rfl, .refl files, fun _ => .inl ⟨nofun, rfl⟩⟩

theorem reported_skipped (path : Path) :
    Reported path files (Run.skipped config path, files) :=
  ⟨rfl, .refl files, fun _ => .inl ⟨nofun, rfl⟩⟩

theorem reported_processFile (pass : Template → PassResult) (path : Path) :
    Reported path files (Run.processFile config pass files path) := by
  unfold Run.processFile
  simp only
  split
  · exact reported_failed config path _
  · split
    · exact reported_failed config path _
    · split
      · exact ⟨rfl, .refl files, fun _ => .inl ⟨nofun, rfl⟩⟩
      · split
        · next fault after failed =>
          rcases Workspace.write_error failed with same | ⟨size, isCut, rfl⟩
          · rw [same]
            exact reported_failed config path _
          · exact ⟨rfl, files.sameSetting_put _ _, fun atomic => absurd isCut (atomic _ size fault)⟩
        · next after written =>
          obtain ⟨-, -, rfl⟩ := Workspace.write_ok written
          exact ⟨rfl, files.sameSetting_put _ _, fun _ => .inr ⟨rfl, _, rfl⟩⟩

theorem reported_processAll (files : Workspace) (pass : Path → Template → PassResult)
    (path : Path) : ∃ done, Run.processAll config pass files [path] = ([done.1], done.2) ∧
      Reported path files done := by
  rw [Run.processAll]
  cases config.isEligible path with
  | true => exact ⟨_, rfl, reported_processFile config _ path⟩
  | false => exact ⟨_, rfl, reported_skipped config path⟩

end Step

section Process

variable [Helper.Parser] (config : Config) (state : Run.HelperState) (files : Workspace)
  (batch : Batch)

/-- After the helper was tried, it is not tried again. -/
theorem settle_frame :
    let settled := state.settle config files
    settled.1 ≠ .pending ∧ files.SameSetting settled.2 ∧
      ∀ place, settled.2.tree.get? place = files.tree.get? place ∨
        state = .pending ∧ Helper.Touches config files settled.2 place := by
  cases state with
  | pending =>
    have frame := Helper.frame_write config files
    unfold Run.HelperState.settle
    generalize Helper.write config files = attempt at frame
    obtain ⟨_ | _, after⟩ := attempt
    · exact ⟨nofun, frame.toSameSetting, fun place => (frame.touched place).imp_right (.intro rfl)⟩
    · exact ⟨nofun, frame.toSameSetting, fun place => (frame.touched place).imp_right (.intro rfl)⟩
  | ready outcome => exact ⟨nofun, .refl files, fun _ => .inl rfl⟩
  | broken error => exact ⟨nofun, .refl files, fun _ => .inl rfl⟩

/-- What a run does with one path. A run that instruments puts the helper in place first, if that
has not been tried; or else the path is no template, and nothing changes. -/
theorem process_one (path : Path) :
    ∃ between done, batch.process config state files [path] = ([done.1], between.1, done.2) ∧
      Reported path between.2 done ∧
      (between = (state, files) ∧ (batch = .instrument → done.2 = files) ∨
        batch = .instrument ∧ between = state.settle config files) := by
  cases batch with
  | instrument =>
    rw [process, Run.instrumentAll]
    cases config.isEligible path with
    | true =>
      generalize settled : state.settle config files = between
      obtain ⟨known, after⟩ := between
      cases known with
      | broken error =>
        exact ⟨_, _, rfl, reported_failed config path error, .inr ⟨rfl, rfl⟩⟩
      | _ => exact ⟨_, _, rfl, reported_processFile config _ path, .inr ⟨rfl, rfl⟩⟩
    | false =>
      exact ⟨(state, files), _, rfl, reported_skipped config path, .inl ⟨rfl, fun _ => rfl⟩⟩
  | strip =>
    obtain ⟨done, single, reported⟩ :=
      reported_processAll config files (fun _ => Template.strip) path
    refine ⟨(state, files), done, ?_, reported, .inl ⟨rfl, fun same => by cases same⟩⟩
    rw [process, single]
  | migrate aggregate =>
    obtain ⟨done, single, reported⟩ := reported_processAll config files
      (fun path template => template.migrate (aggregate.confirmedFor (config.identityFor path))) path
    refine ⟨(state, files), done, ?_, reported, .inl ⟨rfl, fun same => by cases same⟩⟩
    rw [process, single]

/-- There is one entry for each path, in the order of the paths. -/
theorem map_path_process (paths : List Path) :
    (batch.process config state files paths).1.map FileReport.path = paths := by
  induction paths generalizing state files with
  | nil =>
    rw [process_nil]
    rfl
  | cons path rest inductionHypothesis =>
    obtain ⟨between, done, single, reported, -⟩ := process_one config state files batch path
    rw [process_cons, single]
    simp only [inductionHypothesis, List.map_cons, reported.isPath,
      List.singleton_append]

end Process

/-! ### What has changed -/

/-- Whether an entry says that the file at a place was written. -/
def Writes (files : Workspace) (reports : List FileReport) (place : List String) : Prop :=
  ∃ entry ∈ reports, entry.status = .written ∧ files.placeOf entry.path = place

/-- Between two states of the files nothing has changed but the files that the entries report as
written and, in a run that instruments and has not tried it yet, what putting the helper in place
may change. -/
structure Frame (config : Config) (state : Run.HelperState) (batch : Batch)
    (reports : List FileReport) (files after : Workspace) : Prop
    extends files.SameSetting after where
  touched : ∀ place, after.tree.get? place = files.tree.get? place ∨ Writes files reports place ∨
    batch = .instrument ∧ state = .pending ∧ Helper.Touches config files after place

theorem Reported.touched {path : Path} {files : Workspace} {done : FileReport × Workspace}
    (reported : Reported path files done) (atomic : files.tree.Atomic) (place : List String) :
    done.2.tree.get? place = files.tree.get? place ∨ Writes files [done.1] place := by
  rcases reported.effect atomic with ⟨-, same⟩ | ⟨written, content, changed⟩
  · rw [same]
    exact .inl rfl
  · rw [changed]
    by_cases same : place = files.placeOf path
    · exact .inr ⟨done.1, List.mem_singleton_self _, written, by rw [reported.isPath, same]⟩
    · exact .inl (files.tree.get?_put_other _ _ same)

theorem Writes.congr {files after : Workspace} (same : files.SameSetting after)
    {reports : List FileReport} {place : List String} (writes : Writes after reports place) :
    Writes files reports place := by
  obtain ⟨entry, member, written, isPlace⟩ := writes
  exact ⟨entry, member, written, (Workspace.placeOf_congr same.here entry.path) ▸ isPlace⟩

theorem Writes.mono {files : Workspace} {reports more : List FileReport} {place : List String}
    (writes : Writes files reports place) (subset : reports ⊆ more) : Writes files more place := by
  obtain ⟨entry, member, written⟩ := writes
  exact ⟨entry, subset member, written⟩

section Frame

variable [Helper.Parser] (config : Config) (state : Run.HelperState) (files : Workspace)
  (batch : Batch)

/-- One path. As long as the helper has not been tried, a run that instruments has changed
nothing. -/
theorem frame_one (atomic : files.tree.Atomic) (path : Path) :
    let one := batch.process config state files [path]
    Frame config state batch one.1 files one.2.2 ∧
      (batch = .instrument → one.2.1 = .pending → state = .pending ∧ one.2.2 = files) := by
  obtain ⟨between, done, single, reported, settled⟩ := process_one config state files batch path
  simp only [single]
  rcases settled with ⟨rfl, idle⟩ | ⟨rfl, rfl⟩
  · refine ⟨⟨reported.setting, fun place => (reported.touched atomic place).imp_right .inl⟩,
      fun instruments pending => ?_⟩
    exact ⟨pending, idle instruments⟩
  · obtain ⟨tried, setting, helper⟩ := settle_frame config state files
    refine ⟨⟨setting.trans reported.setting, fun place => ?_⟩,
      fun _ pending => absurd pending tried⟩
    rcases reported.touched (setting.atomic atomic) place with same | writes
    · rcases helper place with kept | ⟨pending, touches⟩
      · exact .inl (same.trans kept)
      · exact .inr (.inr ⟨rfl, pending, touches.congr same⟩)
    · exact .inr (.inl (writes.congr setting))

/-- A whole list of paths. -/
theorem frame_process (atomic : files.tree.Atomic) (paths : List Path) :
    let processed := batch.process config state files paths
    Frame config state batch processed.1 files processed.2.2 := by
  induction paths generalizing state files with
  | nil =>
    rw [process_nil]
    exact ⟨.refl files, fun _ => .inl rfl⟩
  | cons path rest inductionHypothesis =>
    rw [process_cons]
    obtain ⟨one, untried⟩ := frame_one config state files batch atomic path
    generalize batch.process config state files [path] = single at one untried
    obtain ⟨reports, between, left⟩ := single
    simp only at one untried ⊢
    have more := inductionHypothesis between left (one.atomic atomic)
    refine ⟨one.toSameSetting.trans more.toSameSetting, fun place => ?_⟩
    rcases more.touched place with same | writes | ⟨instruments, pending, touches⟩
    · rcases one.touched place with kept | writes | ⟨instruments, pending, touches⟩
      · exact .inl (same.trans kept)
      · exact .inr (.inl (writes.mono (List.subset_append_left _ _)))
      · exact .inr (.inr ⟨instruments, pending, touches.congr same⟩)
    · exact .inr (.inl ((writes.congr one.toSameSetting).mono (List.subset_append_right _ _)))
    · obtain ⟨before, rfl⟩ := untried instruments pending
      exact .inr (.inr ⟨instruments, before, touches⟩)

end Frame

end Batch

/-! ### Runs -/

/-- A run touches only what it reports. Its report has one entry for each file that the paths stand
for at the beginning, in order. Whatever became of some of them, the others are processed on what
they have left; and unless it instruments and the helper cannot be put in place, it makes of each
template what its pass makes of the file as it finds it at that moment. A file that no entry reports
as written, and that is neither the helper nor under the name of its staging file, keeps its content.
And nothing has changed but files that are reported as written and, in a run that instruments, the
helper, directories that were made on the way to it, and what stood under the name of the staging
file.

A file is written completely, or it stays as it was. -/
theorem run_frame [Helper.Parser] (config : Config) (files : Workspace) (paths : List Path)
    (batch : Batch) (atomic : files.tree.Atomic) :
    let targets := Run.expand config files paths
    let report := (batch.run config files paths).1
    let after := (batch.run config files paths).2
    report.files.map FileReport.path = targets ∧
      (∀ first rest, targets = first ++ rest →
        let early := batch.process config .pending files first
        let late := batch.process config early.2.1 early.2.2 rest
        report.files = early.1 ++ late.1 ∧ after = late.2.2) ∧
      (∀ first path rest, targets = first ++ path :: rest → config.isEligible path = true →
        (batch = .instrument → (Helper.write config files).1.isOk = true) →
        let met := batch.meet config files first
        let done := Run.processFile config (batch.pass config path) met.2 path
        let late := batch.process config met.1 done.2 rest
        report.files = (batch.process config .pending files first).1 ++ done.1 :: late.1 ∧
          after = late.2.2) ∧
      (∀ place content, files.tree.get? place = some (.file content) →
        place ≠ files.placeOf config.helperFile →
        (batch = .instrument → ¬Helper.stagingPlace config files <+: place) →
        (∀ entry ∈ report.files, files.placeOf entry.path = place → entry.status ≠ .written) →
        after.tree.get? place = some (.file content)) ∧
      ∀ place, after.tree.get? place ≠ files.tree.get? place →
        (∃ entry ∈ report.files, entry.status = .written ∧ files.placeOf entry.path = place) ∨
        batch = .instrument ∧
          (place = files.placeOf config.helperFile ∨
            (files.tree.get? place = none ∧ after.tree.get? place = some .directory ∧
              Helper.IsParent files config.helperFile place) ∨
            Helper.Stages files after (Helper.stagingPlace config files) place) := by
  obtain ⟨isReport, isAfter⟩ := batch.run_eq config files paths
  have frame := batch.frame_process config .pending files atomic (Run.expand config files paths)
  have changed : ∀ place, (batch.run config files paths).2.tree.get? place ≠
      files.tree.get? place → Batch.Writes files (batch.run config files paths).1.files place ∨
      batch = .instrument ∧
        Helper.Touches config files (batch.run config files paths).2 place := by
    intro place differs
    rw [isReport, isAfter]
    rw [isAfter] at differs
    rcases frame.touched place with same | writes | ⟨instruments, -, touches⟩
    · exact absurd same differs
    · exact .inl writes
    · exact .inr ⟨instruments, touches⟩
  refine ⟨?_, ?_, ?_, ?_, changed⟩
  · rw [isReport, Batch.map_path_process]
  · intro first rest split
    rw [isReport, isAfter, split, Batch.process_append]
    exact ⟨rfl, rfl⟩
  · intro first path rest split eligible installs
    rw [isReport, isAfter, split,
      Batch.process_template config files batch first rest eligible installs]
    exact ⟨rfl, rfl⟩
  · intro place content found notHelper notStaged notWritten
    refine Classical.byContradiction fun differs => ?_
    rcases changed place (by rwa [found]) with ⟨entry, member, written, isPlace⟩ |
      ⟨instruments, isHelper | ⟨missing, -⟩ | ⟨below, -⟩⟩
    · exact notWritten entry member isPlace written
    · exact notHelper isHelper
    · rw [found] at missing
      cases missing
    · exact notStaged instruments below

/-- A parser that finds a default export in every text, as there is one in the source of the
helper. -/
abbrev Helper.Parser.lenient : Helper.Parser where
  hasDefaultExport? _ := some true

/-- A template that cannot be read, two that can, of which one is protected, and a file that is no
template. -/
def mixedFiles : Workspace where
  tree.entries := [(["a.hbs"], .file "\x7b\x7b#user-card\x7d\x7d".toUTF8),
    (["b.hbs"], .file "\x7b\x7buser-card\x7d\x7d".toUTF8), (["c.txt"], .file "c".toUTF8),
    (["d.hbs"], .file "\x7b\x7buser-card\x7d\x7d".toUTF8)]
  tree.refusals := { FileTree.Refusals.none with
    write place := if place = ["d.hbs"] then some (.closed .denied) else none }
  here := []
  process := 7

theorem atomic_mixedFiles : mixedFiles.tree.Atomic := by
  intro place size fault
  simp only [mixedFiles]
  split <;> exact nofun

/-- These files and one that is missing. -/
def mixedPaths : List Path :=
  [⟨"a.hbs"⟩, ⟨"gone.hbs"⟩, ⟨"c.txt"⟩, ⟨"d.hbs"⟩, ⟨"b.hbs"⟩]

section Lenient

attribute [local instance] Helper.Parser.lenient

theorem run_frame_mixedFiles :
    let report := (Batch.run .default mixedFiles mixedPaths .instrument).1
    let after := (Batch.run .default mixedFiles mixedPaths .instrument).2
    report.files.map FileReport.path = Run.expand .default mixedFiles mixedPaths ∧
      report.written = 1 ∧ report.skipped = 1 ∧ report.failed = 3 ∧
      (∃ moment early, report.files =
        early ++ [(Run.processFile .default Template.instrument moment ⟨"b.hbs"⟩).1]) ∧
      after.tree.get? ["a.hbs"] = some (.file "\x7b\x7b#user-card\x7d\x7d".toUTF8) := by
  have counts : (Batch.run .default mixedFiles mixedPaths .instrument).1.written = 1 ∧
      (Batch.run .default mixedFiles mixedPaths .instrument).1.skipped = 1 ∧
      (Batch.run .default mixedFiles mixedPaths .instrument).1.failed = 3 ∧
      ∀ entry ∈ (Batch.run .default mixedFiles mixedPaths .instrument).1.files,
        mixedFiles.placeOf entry.path = ["a.hbs"] → entry.status ≠ .written := by
    decide +kernel
  obtain ⟨written, skipped, failed, notWritten⟩ := counts
  have expanded : Run.expand .default mixedFiles mixedPaths = mixedPaths := by decide +kernel
  have installs : (Helper.write .default mixedFiles).1.isOk = true := by decide +kernel
  obtain ⟨paths, -, templates, kept, -⟩ :=
    run_frame .default mixedFiles mixedPaths .instrument atomic_mixedFiles
  obtain ⟨entries, -⟩ := templates (mixedPaths.take 4) ⟨"b.hbs"⟩ [] expanded (by decide +kernel)
    fun _ => installs
  rw [Batch.process_nil] at entries
  exact ⟨paths, written, skipped, failed, ⟨_, _, entries⟩,
    kept ["a.hbs"] _ rfl (by decide +kernel) (fun _ => by decide +kernel) notWritten⟩

/-- A template, and a file that an earlier process of the same number has left under the name of its
staging file. -/
def stagedFiles : Workspace where
  tree.entries := [(["a.hbs"], .file "\x7b\x7bfoo\x7d\x7d".toUTF8), (["app"], .directory),
    (["app", "helpers"], .directory),
    (["app", "helpers", ".-probe-is-component.js.7.tmp"], .file "".toUTF8)]
  here := []
  process := 7

/-- A helper whose path goes through a directory and back out of it. -/
def sidewaysConfig : Config :=
  { Config.default with helperPath := ⟨"x/../h.js"⟩ }

/-- A run that instruments changes more than it reports. What stood under the name of its staging file
is gone; and a path of the helper that goes back leaves a directory that does not hold the helper. -/
theorem instrument_changes_unreported :
    let staged := Helper.stagingPlace .default stagedFiles
    let report := (Batch.run .default stagedFiles [⟨"a.hbs"⟩] .instrument).1
    let after := (Batch.run .default stagedFiles [⟨"a.hbs"⟩] .instrument).2
    let sideways := (Batch.run sidewaysConfig stagedFiles [⟨"a.hbs"⟩] .instrument).2
    stagedFiles.tree.Atomic ∧
      staged ≠ stagedFiles.placeOf Config.default.helperFile ∧
      (∀ entry ∈ report.files, stagedFiles.placeOf entry.path ≠ staged) ∧
      (stagedFiles.tree.get? staged).isSome = true ∧ after.tree.get? staged = none ∧
      stagedFiles.tree.get? ["x"] = none ∧ sideways.tree.get? ["x"] = some .directory ∧
      ¬["x"] <+: stagedFiles.placeOf sidewaysConfig.helperFile := by
  refine ⟨nofun, ?_⟩
  decide +kernel

end Lenient

end TagMigration
