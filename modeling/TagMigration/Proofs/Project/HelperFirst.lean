/-
The helper comes first. A run that instruments tries to put the helper in place before it touches any
template. If that fails, no template is touched, and of the attempt there are left at most
directories and a staging file that could not be written to its end or not be removed. If it
succeeds, the helper is there when the first template is processed, and further attempts find it.
-/
import TagMigration.Proofs.Project.BatchRun
import TagMigration.Proofs.Project.HelperWrite

namespace TagMigration

/-- No template is instrumented without its helper. If no file is a template, the helper is not
touched and not reported. Otherwise there is one attempt to put it in place, before any file is
processed. If that fails, every template is refused with its error, and nothing has changed but that
directories were made where nothing stood, and what stands under the name of the staging file: that is
gone, unless the staging file could not be written to its end or not be removed. So where it can, all
files that stand under that name stood there before. If the attempt succeeds, the helper is read
along its path when the first file is processed; and as long as it is read along its path, further
attempts find it there and change nothing.

Where relative paths start from has to be there; and what stands in place of the helper has the digest
of the helper only if it is the helper. -/
theorem instrument_helper_first [Helper.Parser] (config : Config) (files : Workspace)
    (paths : List Path) (rooted : files.Rooted) (unforged : Helper.Unforged config files) :
    let targets := Run.expand config files paths
    let attempt := Helper.write config files
    let run := Run.instrument config files paths
    let staged := Helper.stagingPlace config files
    ((∀ path ∈ targets, config.isEligible path = false) →
      run = (⟨.instrument, targets.map (Run.skipped config), none⟩, files)) ∧
    ((∃ path ∈ targets, config.isEligible path = true) →
      (∀ error, attempt.1 = .error error →
        run = (⟨.instrument, targets.map (Run.refused config error), none⟩, attempt.2) ∧
        (∀ place, run.2.tree.get? place ≠ files.tree.get? place →
          (files.tree.get? place = none ∧ run.2.tree.get? place = some .directory ∧
            Helper.IsParent files config.helperFile place) ∨
          staged <+: place ∧ (run.2.tree.get? place = none ∨ files.tree.Lingers staged)) ∧
        (¬files.tree.Lingers staged → ∀ place content, staged <+: place →
          run.2.tree.get? place = some (.file content) →
          files.tree.get? place = some (.file content))) ∧
      ∀ outcome, attempt.1 = .ok outcome →
        attempt.2.read config.helperFile = .ok Helper.content ∧
        (run = let processed :=
            Run.processAll config (fun _ => Template.instrument) attempt.2 targets
          (⟨.instrument, processed.1, some outcome⟩, processed.2)) ∧
        ∀ later : Workspace, later.read config.helperFile = .ok Helper.content →
          Helper.write config later =
            (.ok ⟨config.helperFile, .unchanged, Sha256.hex Helper.content⟩, later)) := by
  refine ⟨Run.instrument_of_skipped,
    fun comes => ⟨fun error failed => ?_, fun outcome written => ?_⟩⟩
  · have isAttempt : Helper.write config files = (.error error, (Helper.write config files).2) :=
      Prod.ext failed rfl
    have refused := Run.instrument_of_error comes isAttempt
    obtain ⟨-, touched⟩ := Helper.frame_of_error isAttempt
    refine ⟨refused, fun place differs => ?_, fun clears place content below isFile => ?_⟩
    · rw [refused] at differs ⊢
      exact (touched place).resolve_left differs
    · rw [refused] at isFile
      rcases touched place with same | ⟨-, made, -⟩ | ⟨-, gone | lingers⟩
      · rw [← same, isFile]
      · rw [made] at isFile
        cases isFile
      · rw [gone] at isFile
        cases isFile
      · exact absurd lingers clears
  · have isAttempt : Helper.write config files = (.ok outcome, (Helper.write config files).2) :=
      Prod.ext written rfl
    have valid := (Helper.cases_of_write_ok isAttempt).1
    exact ⟨Helper.read_of_write rooted unforged isAttempt, Run.instrument_of_ok comes isAttempt,
      fun later read => Helper.write_of_isCurrent valid (Helper.isCurrent_of_read read)⟩

/-- A template, and a file where the way to the helper would begin. -/
def blockedFiles : Workspace where
  tree.entries :=
    [(["a.hbs"], .file "\x7b\x7buser-card\x7d\x7d".toUTF8), (["app"], .file "".toUTF8)]
  here := []
  process := 7

theorem rooted_of_here {files : Workspace} (here : files.here = []) : files.Rooted := by
  intro above isAbove
  rw [here, List.prefix_nil] at isAbove
  rw [isAbove]
  rfl

section Lenient

attribute [local instance] Helper.Parser.lenient

theorem instrument_helper_first_blockedFiles :
    (∃ outcome, (Helper.write .default mixedFiles).1 = .ok outcome ∧
      (Helper.write .default mixedFiles).2.read Config.default.helperFile = .ok Helper.content ∧
      (Run.instrument .default mixedFiles mixedPaths).1.helper = some outcome) ∧
    ∃ error, (Helper.write .default blockedFiles).1 = .error error ∧
      Run.instrument .default blockedFiles mixedPaths =
        (⟨.instrument, mixedPaths.map (Run.refused .default error), none⟩,
          (Helper.write .default blockedFiles).2) := by
  have unforged {files : Workspace}
      (missing : (files.read Config.default.helperFile).toOption = none) :
      Helper.Unforged .default files := by
    intro existing read
    rw [read] at missing
    cases missing
  constructor
  · have comes : ∃ path ∈ Run.expand .default mixedFiles mixedPaths,
        Config.default.isEligible path = true := by decide +kernel
    have succeeds : (Helper.write .default mixedFiles).1.isOk = true := by decide +kernel
    obtain ⟨-, runs⟩ := instrument_helper_first .default mixedFiles mixedPaths
      (rooted_of_here rfl) (unforged (by decide +kernel))
    obtain ⟨outcome, written⟩ := Helper.exists_of_isOk succeeds
    have attempt := congrArg Prod.fst written
    obtain ⟨read, run, -⟩ := (runs comes).2 outcome attempt
    exact ⟨outcome, attempt, read, congrArg (fun run => run.1.helper) run⟩
  · have comes : ∃ path ∈ Run.expand .default blockedFiles mixedPaths,
        Config.default.isEligible path = true := by decide +kernel
    have fails : (Helper.write .default blockedFiles).1.isOk = false := by decide +kernel
    have expanded : Run.expand .default blockedFiles mixedPaths = mixedPaths := by decide +kernel
    obtain ⟨-, runs⟩ := instrument_helper_first .default blockedFiles mixedPaths
      (rooted_of_here rfl) (unforged (by decide +kernel))
    cases attempt : (Helper.write .default blockedFiles).1 with
    | error error =>
      obtain ⟨run, -⟩ := (runs comes).1 error attempt
      rw [expanded] at run
      exact ⟨error, rfl, run⟩
    | ok outcome =>
      rw [attempt] at fails
      cases fails

/-- A template, a directory in place of the helper, and what two earlier processes have left under the
names of their staging files. -/
def leftoverFiles : Workspace where
  tree.entries := [(["a.hbs"], .file "\x7b\x7bfoo\x7d\x7d".toUTF8), (["app"], .directory),
    (["app", "helpers"], .directory), (["app", "helpers", "-probe-is-component.js"], .directory),
    (["app", "helpers", "-probe-is-component.js", "x"], .file "".toUTF8),
    (["app", "helpers", ".-probe-is-component.js.7.tmp"], .file "".toUTF8),
    (["app", "helpers", ".-probe-is-component.js.99999999.tmp"], .file "".toUTF8)]
  here := []
  process := 7

/-- A template, and a device that has room for three more bytes. -/
def crampedFiles : Workspace where
  tree.entries := [(["a.hbs"], .file "\x7b\x7bfoo\x7d\x7d".toUTF8)]
  tree.refusals := { FileTree.Refusals.none with write _ := some (.cut 3 .noSpace) }
  here := []
  process := 7

/-- An attempt that fails can change files and leave staging files. It takes away what stood under the
name of its staging file; it leaves the staging files of other processes, and its own one if the
device is full. And where the path of the helper goes back, a helper that is there is not found once
the directory that it goes back from is gone. -/
theorem instrument_leaves_staging_file :
    let failed := Run.instrument .default leftoverFiles [⟨"a.hbs"⟩]
    let cramped := Run.instrument .default crampedFiles [⟨"a.hbs"⟩]
    let later := ((Helper.write sidewaysConfig stagedFiles).2.remove ⟨"x"⟩).2
    (failed.1.failed = 1 ∧ failed.1.helper = none ∧
      (leftoverFiles.tree.get? (Helper.stagingPlace .default leftoverFiles)).isSome = true ∧
      failed.2.tree.get? (Helper.stagingPlace .default leftoverFiles) = none ∧
      (failed.2.tree.get? ["app", "helpers", ".-probe-is-component.js.99999999.tmp"]).isSome =
        true) ∧
    (cramped.1.failed = 1 ∧ cramped.1.helper = none ∧
      crampedFiles.tree.get? (Helper.stagingPlace .default crampedFiles) = none ∧
      (cramped.2.tree.get? (Helper.stagingPlace .default crampedFiles)).isSome = true) ∧
    (Helper.write sidewaysConfig stagedFiles).1.isOk = true ∧
      (later.tree.get? (later.placeOf sidewaysConfig.helperFile)).isSome = true ∧
      (Helper.write sidewaysConfig later).1.toOption.map Helper.Outcome.status = some .written := by
  decide +kernel

end Lenient

end TagMigration
