/-
Instrumenting again, and stripping. A run that instruments leaves every template at rest and the
helper in place, so a second run over the same paths has nothing to do; and stripping takes each file
back to what it was. What the paths stand for is looked up anew by each run, though, and the helper
may have changed that: on the way to it directories were made, and a path that led nowhere through
one of them may lead to old templates now.
-/
import TagMigration.Proofs.Project.HelperFirst
import TagMigration.Proofs.Project.Installed
import TagMigration.Proofs.Project.Reworked

namespace TagMigration

namespace Run

/-- The templates that a run over files reads before it changes any of them. -/
def templates (config : Config) (files : Workspace) (paths : List Path) : List Template :=
  paths.filterMap fun path =>
    if config.isEligible path then (files.read path).toOption.bind Template.ofContent? else none

section Processed

variable {config : Config} {files : Workspace} {paths : List Path} {path : Path}
  {place : List String} {content : ByteArray}

theorem mem_templates (member : path ∈ paths) (eligible : config.isEligible path = true)
    (read : files.read path = .ok content) {template : Template}
    (isTemplate : Template.ofContent? content = some template) :
    template ∈ templates config files paths := by
  refine List.mem_filterMap.mpr ⟨path, member, ?_⟩
  rw [if_pos eligible, read]
  exact isTemplate

theorem Visits.mem_templates (visits : Visits config files path place) (member : path ∈ paths)
    (found : files.tree.get? place = some (.file content)) {template : Template}
    (isTemplate : Template.ofContent? content = some template) :
    template ∈ templates config files paths :=
  Run.mem_templates member visits.eligible (visits.read found) isTemplate

/-- What a run that instruments leaves of a file that it comes to. -/
theorem exists_instrumented (atomic : files.tree.Atomic)
    (plainNames : ∀ template ∈ templates config files paths, template.PlainNames)
    (found : files.tree.get? place = some (.file content)) (member : path ∈ paths)
    (visits : Visits config files path place) :
    ∃ path ∈ paths, Visits config files path place ∧
      (processAll config (fun _ => Template.instrument) files paths).2.tree.get? place =
        some (.file (rework Template.instrument (config.identityFor path) content)) := by
  refine get?_processAll_visited atomic found (fun one oneMember oneVisits other _ _ => ?_) member
    visits
  exact atRest_instrument (config.plain_identityFor one)
    (fun template isTemplate =>
      plainNames template (oneVisits.mem_templates oneMember found isTemplate)) _

/-- All that a run that instruments comes to and can write is at rest after it. -/
theorem atRest_of_instrumented (atomic : files.tree.Atomic)
    (plainNames : ∀ template ∈ templates config files paths, template.PlainNames)
    (member : path ∈ paths) (eligible : config.isEligible path = true)
    (writable : refusal? files path = none)
    (read : (processAll config (fun _ => Template.instrument) files paths).2.read path =
      .ok content) : AtRest Template.instrument content := by
  have refilled := refilled_processAll config (fun _ => Template.instrument) files paths
  obtain ⟨old, readBefore⟩ := (refilled.readable path).mp ⟨content, read⟩
  have found := Workspace.get?_of_read readBefore
  obtain ⟨settler, settles, visits, result⟩ :=
    exists_instrumented atomic plainNames found member
      ⟨eligible, rfl, ⟨old, readBefore⟩, writable⟩
  have isResult := Workspace.get?_of_read read
  rw [Workspace.placeOf_congr refilled.here, result, Option.some.injEq,
    FileTree.Entry.file.injEq] at isResult
  rw [← isResult]
  exact atRest_instrument (config.plain_identityFor settler) fun template isTemplate =>
    plainNames template (visits.mem_templates settles found isTemplate)

/-- Stripping takes back what instrumenting has done to a file that both come to. -/
theorem get?_strip_instrumented {again : List Path} (atomic : files.tree.Atomic)
    (plainNames : ∀ template ∈ templates config files paths, template.PlainNames)
    (unprobed : ∀ template ∈ templates config files paths, template.Unprobed)
    (found : files.tree.get? place = some (.file content)) (member : path ∈ paths)
    (visits : Visits config files path place) (memberAgain : path ∈ again) :
    let done := (processAll config (fun _ => Template.instrument) files paths).2
    (processAll config (fun _ => Template.strip) done again).2.tree.get? place =
      some (.file content) := by
  intro done
  have refilled := refilled_processAll config (fun _ => Template.instrument) files paths
  obtain ⟨settler, settles, settlerVisits, result⟩ :=
    exists_instrumented atomic plainNames found member visits
  have isTemplate {template : Template} (is : Template.ofContent? content = some template) :
      template ∈ templates config files paths := settlerVisits.mem_templates settles found is
  have restored (identity : String) : rework Template.strip identity
      (rework Template.instrument (config.identityFor settler) content) = content :=
    rework_strip_instrument (config.plain_identityFor settler)
      (fun template is => plainNames template (isTemplate is))
      (fun template is => unprobed template (isTemplate is)) identity
  have stays (one : Path) (_ : one ∈ again) (_ : Visits config done one place) (other : Path)
      (_ : other ∈ again) (_ : Visits config done other place) :
      rework Template.strip (config.identityFor other) (rework Template.strip
          (config.identityFor one)
            (rework Template.instrument (config.identityFor settler) content)) =
        rework Template.strip (config.identityFor one)
          (rework Template.instrument (config.identityFor settler) content) := by
    rw [restored]
    exact atRest_strip (fun template is => unprobed template (isTemplate is)) _
  obtain ⟨last, -, -, final⟩ := get?_processAll_visited (refilled.atomic atomic) result stays
    memberAgain ((visits_refilled refilled).mpr visits)
  rwa [restored] at final

end Processed

/-! ### With the helper in place -/

section Placed

variable [Helper.Parser] {config : Config} {files helped : Workspace} {paths : List Path}
  {outcome : Helper.Outcome}

omit [Helper.Parser] in
/-- Whatever a run does, the helper is read as before, if the run does not come to it. -/
theorem read_helper_processAll (atomic : files.tree.Atomic) (pass : Path → Template → PassResult)
    (readable : ∃ content, files.read config.helperFile = .ok content)
    (apart : ∀ path ∈ paths, config.isEligible path = true →
      files.placeOf path ≠ files.placeOf config.helperFile) :
    (processAll config pass files paths).2.read config.helperFile =
      files.read config.helperFile := by
  obtain ⟨content, read⟩ := readable
  rw [read]
  refine (refilled_processAll config pass files paths).read ⟨content, read⟩ ?_
  refine get?_processAll_of_rest atomic (Workspace.get?_of_read read) fun path member visits => ?_
  exact absurd visits.isPlace (apart path member visits.eligible)

omit [Helper.Parser] in
theorem apart_installed (installed : Helper.Installed config files helped)
    (apart : ∀ path ∈ paths, config.isEligible path = true →
      files.placeOf path ≠ files.placeOf config.helperFile) :
    ∀ path ∈ paths, config.isEligible path = true →
      helped.placeOf path ≠ helped.placeOf config.helperFile := by
  intro path member eligible
  rw [Workspace.placeOf_congr installed.here, Workspace.placeOf_congr installed.here]
  exact apart path member eligible

/-- All that the paths stand for once the helper is in place, and that can be written, is at rest
after a run that instruments what they stood for before. -/
theorem atRest_again (wellFormed : files.WellFormed) (unstaged : Helper.Unstaged config files)
    (atomic : files.tree.Atomic)
    (written : Helper.write config files = (.ok outcome, helped))
    (apart : ∀ path ∈ expand config files paths, config.isEligible path = true →
      files.placeOf path ≠ files.placeOf config.helperFile)
    (unopened : Unopened files helped paths)
    (plainNames : ∀ template ∈ templates config helped (expand config files paths),
      template.PlainNames) :
    let done := (processAll config (fun _ => Template.instrument) helped
      (expand config files paths)).2
    ∀ path ∈ expand config done paths, config.isEligible path = true →
      refusal? done path = none → ∀ content, done.read path = .ok content →
        AtRest Template.instrument content := by
  intro done path member eligible writable content read
  have installed := Helper.installed_of_write wellFormed.rooted unstaged written
  have refilled := refilled_processAll config (fun _ => Template.instrument) helped
    (expand config files paths)
  have inHelped := (mem_expand_refilled refilled
    (installed.ordered wellFormed.tree.ordered)).mp member
  rcases mem_expand_of_installed wellFormed installed unopened inHelped with before | isHelper
  · rw [refusal?_congr refilled.toSameSetting] at writable
    exact atRest_of_instrumented (installed.atomic atomic) plainNames before eligible writable read
  · rcases Helper.write_ok_cases wellFormed.rooted written with ⟨rfl, -⟩ | isContent
    · exact absurd isHelper (apart path inHelped eligible)
    · -- The helper has become one of the templates.
      have still := read_helper_processAll (installed.atomic atomic)
        (fun _ => Template.instrument) ⟨_, isContent⟩ (apart_installed installed apart)
      have found := Workspace.get?_of_read (still.trans isContent)
      have there := Workspace.get?_of_read read
      rw [Workspace.placeOf_congr refilled.here] at found there
      rw [isHelper, ← Workspace.placeOf_congr installed.here, found] at there
      rw [← FileTree.Entry.file.inj (Option.some.inj there)]
      exact Helper.atRest_content.1

end Placed

/-- Taking the probes out restores every file that was there before, other than the helper. -/
theorem restored_again [Helper.Parser] {config : Config} {files helped : Workspace}
    {paths : List Path} {outcome : Helper.Outcome} (wellFormed : files.WellFormed)
    (unstaged : Helper.Unstaged config files) (atomic : files.tree.Atomic)
    (written : Helper.write config files = (.ok outcome, helped))
    (unopened : Unopened files helped paths)
    (plainNames : ∀ template ∈ templates config helped (expand config files paths),
      template.PlainNames)
    (unprobed : ∀ template ∈ templates config helped (expand config files paths),
      template.Unprobed)
    {place : List String} {content : ByteArray} (ne : place ≠ files.placeOf config.helperFile)
    (found : files.tree.get? place = some (.file content)) :
    let done := (processAll config (fun _ => Template.instrument) helped
      (expand config files paths)).2
    (processAll config (fun _ => Template.strip) done (expand config done paths)).2.tree.get?
      place = some (.file content) := by
  intro done
  have installed := Helper.installed_of_write wellFormed.rooted unstaged written
  have ordered := installed.ordered wellFormed.tree.ordered
  have refilled := refilled_processAll config (fun _ => Template.instrument) helped
    (expand config files paths)
  have there : helped.tree.get? place = some (.file content) :=
    (installed.file place content ne).mpr found
  by_cases visited : ∃ path ∈ expand config files paths, Visits config helped path place
  · obtain ⟨path, member, visits⟩ := visited
    refine get?_strip_instrumented (installed.atomic atomic) plainNames unprobed there member
      visits ?_
    exact (mem_expand_refilled refilled ordered).mpr
      (mem_expand_installed wellFormed.tree.ordered installed member visits.readable)
  · -- No path leads there in any of the runs.
    have untouched : done.tree.get? place = some (.file content) :=
      get?_processAll_of_rest (installed.atomic atomic) there fun path member visits =>
        absurd ⟨path, member, visits⟩ visited
    refine get?_processAll_of_rest (refilled.atomic (installed.atomic atomic)) untouched
      fun path member visits => ?_
    have visitsHelped := (visits_refilled refilled).mp visits
    rcases mem_expand_of_installed wellFormed installed unopened
      ((mem_expand_refilled refilled ordered).mp member) with before | isHelper
    · exact absurd ⟨path, before, visitsHelped⟩ visited
    · exact absurd (visitsHelped.isPlace.symm.trans isHelper) ne

/-- If the helper is there and all that a run comes to and can write is at rest, then the run changes
nothing and says so. -/
theorem instrument_of_rest [Helper.Parser] {config : Config} {files : Workspace}
    {paths : List Path} {outcome : Helper.Outcome} (atomic : files.tree.Atomic)
    (keeps : config.writeUnchanged = false)
    (isThere : (∃ path ∈ expand config files paths, config.isEligible path = true) →
      Helper.write config files = (.ok outcome, files))
    (rest : ∀ path ∈ expand config files paths, config.isEligible path = true →
      refusal? files path = none → ∀ content, files.read path = .ok content →
        AtRest Template.instrument content) :
    let run := instrument config files paths
    run.2 = files ∧
      run.1.helper =
        (if (expand config files paths).any config.isEligible then some outcome else none) ∧
      ∀ entry ∈ run.1.files, config.isEligible entry.path = true →
        entry.status = .unchanged ∨ ∃ error, entry.status = .failed error := by
  rcases comes_or_skips config (expand config files paths) with comes | skips
  · obtain ⟨same, entries⟩ := processAll_of_rest atomic keeps
      fun path member eligible writable content read =>
        rest path member eligible writable content read (config.identityFor path)
    rw [instrument_of_ok comes (isThere comes), if_pos (List.any_eq_true.mpr comes)]
    exact ⟨same, rfl, entries⟩
  · have noneComes : (expand config files paths).any config.isEligible = false :=
      List.any_eq_false.mpr fun path member => Bool.eq_false_iff.mp (skips path member)
    rw [instrument_of_skipped skips, noneComes]
    refine ⟨rfl, rfl, fun entry member eligible => ?_⟩
    obtain ⟨path, isPath, rfl⟩ := List.mem_map.mp member
    rw [show (skipped config path).path = path from rfl, skips path isPath] at eligible
    cases eligible

end Run

/-! ### Three runs -/

/-- Instrumenting a project is repeatable and reversible. A second run over the same paths leaves the
files as the first has left them; it reports every template that does not fail as unchanged, and the
helper too if it comes to a template at all. If no template had a probe before, then stripping over
the same paths gives every file but the helper the content that it had.

The helper can be put in place, and no path of a template spells out its place; no invocation has a
backslash in its name; and no path is opened up by the directories that are made for the helper. The
number of the process makes the name of its staging file its own. A file is written completely, or it
stays as it was. -/
theorem instrument_repeated [Helper.Parser] (config : Config) (files helped : Workspace)
    (paths : List Path) (outcome : Helper.Outcome) (wellFormed : files.WellFormed)
    (unstaged : Helper.Unstaged config files) (atomic : files.tree.Atomic)
    (keeps : config.writeUnchanged = false)
    (written : Helper.write config files = (.ok outcome, helped))
    (apart : ∀ path ∈ Run.expand config files paths, config.isEligible path = true →
      files.placeOf path ≠ files.placeOf config.helperFile)
    (unopened : Run.Unopened files helped paths)
    (plainNames : ∀ template ∈ Run.templates config helped (Run.expand config files paths),
      template.PlainNames) :
    let first := Run.instrument config files paths
    let second := Run.instrument config first.2 paths
    let stripped := Run.strip config second.2 paths
    second.2 = first.2 ∧
      (second.1.helper =
        if (Run.expand config first.2 paths).any config.isEligible then
          some ⟨config.helperFile, .unchanged, Sha256.hex Helper.content⟩
        else none) ∧
      (∀ entry ∈ second.1.files, config.isEligible entry.path = true →
        entry.status = .unchanged ∨ ∃ error, entry.status = .failed error) ∧
      ((∀ template ∈ Run.templates config helped (Run.expand config files paths),
          template.Unprobed) →
        ∀ place content, place ≠ files.placeOf config.helperFile →
          files.tree.get? place = some (.file content) →
          stripped.2.tree.get? place = some (.file content)) := by
  rcases Run.comes_or_skips config (Run.expand config files paths) with comes | skips
  · have installed := Helper.installed_of_write wellFormed.rooted unstaged written
    have again := Helper.write_again wellFormed.rooted written
      (Run.read_helper_processAll (installed.atomic atomic) (fun _ => Template.instrument)
        (Helper.readable_of_write wellFormed.rooted written)
        (Run.apart_installed installed apart))
    have atomicDone := (Run.refilled_processAll config (fun _ => Template.instrument) helped
      (Run.expand config files paths)).atomic (installed.atomic atomic)
    have rest := Run.instrument_of_rest atomicDone keeps (fun _ => again)
      (Run.atRest_again wellFormed unstaged atomic written apart unopened plainNames)
    rw [Run.instrument_of_ok comes written]
    obtain ⟨same, helper, entries⟩ := rest
    refine ⟨same, helper, entries, fun unprobed place content ne found => ?_⟩
    simp only [same]
    exact Run.restored_again wellFormed unstaged atomic written unopened plainNames unprobed ne found
  · have absent {path : Path} (member : path ∈ Run.expand config files paths)
        (eligible : config.isEligible path = true) : False :=
      Bool.eq_false_iff.mp (skips path member) eligible
    rw [Run.instrument_of_skipped skips]
    obtain ⟨same, helper, entries⟩ := Run.instrument_of_rest atomic keeps
      (fun ⟨_, member, eligible⟩ => (absent member eligible).elim)
      fun path member eligible => (absent member eligible).elim
    refine ⟨same, helper, entries, fun _ place content _ found => ?_⟩
    simp only [same]
    exact Run.get?_processAll_of_rest atomic found fun path member visits =>
      (absent member visits.eligible).elim

/-- A template, and another one in a directory. -/
def nestedFiles : Workspace where
  tree.entries := [(["b.hbs"], .file "\x7b\x7bbar\x7d\x7d".toUTF8), (["tpl"], .directory),
    (["tpl", "a.hbs"], .file "\x7b\x7bfoo\x7d\x7d".toUTF8)]
  here := []
  process := 7

/-- The directory is gone through twice. -/
def nestedPaths : List Path :=
  [⟨"tpl"⟩, ⟨"b.hbs"⟩, ⟨"./tpl/"⟩]

section Lenient

attribute [local instance] Helper.Parser.lenient

theorem instrument_repeated_nestedFiles :
    let first := Run.instrument .default nestedFiles nestedPaths
    let second := Run.instrument .default first.2 nestedPaths
    let stripped := Run.strip .default second.2 nestedPaths
    second.2 = first.2 ∧
      stripped.2.tree.get? ["tpl", "a.hbs"] = some (.file "\x7b\x7bfoo\x7d\x7d".toUTF8) := by
  have facts : nestedFiles.WellFormed ∧ Helper.Unstaged .default nestedFiles ∧
      (∀ path ∈ Run.expand .default nestedFiles nestedPaths,
        Config.default.isEligible path = true →
          nestedFiles.placeOf path ≠ nestedFiles.placeOf Config.default.helperFile) ∧
      Run.Unopened nestedFiles (Helper.write .default nestedFiles).2 nestedPaths ∧
      ∀ template ∈ Run.templates .default (Helper.write .default nestedFiles).2
        (Run.expand .default nestedFiles nestedPaths),
        template.PlainNames ∧ template.Unprobed := by
    decide +kernel
  obtain ⟨wellFormed, unstaged, apart, unopened, templates⟩ := facts
  have atomic : nestedFiles.tree.Atomic := nofun
  have succeeds : (Helper.write .default nestedFiles).1.isOk = true := by decide +kernel
  obtain ⟨outcome, written⟩ := Helper.exists_of_isOk succeeds
  obtain ⟨same, -, -, restored⟩ := instrument_repeated .default nestedFiles
    (Helper.write .default nestedFiles).2 nestedPaths outcome wellFormed unstaged atomic rfl
    written apart unopened fun template member => (templates template member).1
  exact ⟨same, restored (fun template member => (templates template member).2) _ _
    (by decide +kernel) rfl⟩

/-- A path through the directory that will hold the helper. -/
def openedPaths : List Path :=
  [⟨"b.hbs"⟩, ⟨"app/../tpl"⟩]

/-- No files, and a helper whose directory has the name of a template. -/
def bareFiles : Workspace where
  tree := .empty
  here := []
  process := 7

/-- A helper in a directory that has the name of a template. -/
def gatedConfig : Config :=
  { Config.default with helperPath := ⟨"x.hbs/h.js"⟩ }

/-- A template that can be written to its third byte only. -/
def tornFiles : Workspace where
  tree.entries := [(["a.hbs"], .file "\x7b\x7bfoo\x7d\x7d".toUTF8)]
  tree.refusals := { FileTree.Refusals.none with
    write place := if place = ["a.hbs"] then some (.cut 3 .noSpace) else none }
  here := []
  process := 7

/-- The files after a run over the paths through the directory of the helper. -/
def openedFiles : Workspace :=
  (Run.processAll .default (fun _ => Template.instrument) (Helper.write .default nestedFiles).2
    (Run.expand .default nestedFiles openedPaths)).2

/-- What paths stand for can change. A path that is opened up stands for nothing as long as there is
no helper, and then for a template, so that the second run has more to do than the first; and one
that becomes a directory stands for nothing then, so that the second run does not report the
helper. And where writing a template is cut off, stripping does not restore it. -/
theorem instrument_not_repeated :
    nestedFiles.WellFormed ∧ Helper.Unstaged .default nestedFiles ∧
      Config.default.writeUnchanged = false ∧
      (Helper.write .default nestedFiles).1.isOk = true ∧
      (∀ path ∈ Run.expand .default nestedFiles openedPaths,
        Config.default.isEligible path = true →
          nestedFiles.placeOf path ≠ nestedFiles.placeOf Config.default.helperFile) ∧
      (∀ template ∈ Run.templates .default nestedFiles [⟨"b.hbs"⟩, ⟨"tpl/a.hbs"⟩],
        template.PlainNames ∧ template.Unprobed) ∧
      let first := Run.instrument .default nestedFiles openedPaths
      let second := Run.instrument .default first.2 openedPaths
      (∃ entry ∈ second.1.files, Config.default.isEligible entry.path = true ∧
        entry.status = .written) ∧
      (second.2.read ⟨"tpl/a.hbs"⟩).toOption ≠ (first.2.read ⟨"tpl/a.hbs"⟩).toOption ∧
      let bareFirst := Run.instrument gatedConfig bareFiles [⟨"x.hbs"⟩]
      let bareSecond := Run.instrument gatedConfig bareFirst.2 [⟨"x.hbs"⟩]
      (bareFirst.1.helper.isSome = true ∧ bareSecond.1.helper = none) ∧
      let torn := Run.instrument .default tornFiles [⟨"a.hbs"⟩]
      let stripped := Run.strip .default torn.2 [⟨"a.hbs"⟩]
      torn.1.helper.isSome = true ∧
        (stripped.2.read ⟨"a.hbs"⟩).toOption ≠ (tornFiles.read ⟨"a.hbs"⟩).toOption := by
  have hypotheses : nestedFiles.WellFormed ∧ Helper.Unstaged .default nestedFiles ∧
      Config.default.writeUnchanged = false ∧
      (Helper.write .default nestedFiles).1.isOk = true ∧
      (∀ path ∈ Run.expand .default nestedFiles openedPaths,
        Config.default.isEligible path = true →
          nestedFiles.placeOf path ≠ nestedFiles.placeOf Config.default.helperFile) ∧
      (∀ template ∈ Run.templates .default nestedFiles [⟨"b.hbs"⟩, ⟨"tpl/a.hbs"⟩],
        template.PlainNames ∧ template.Unprobed) := by
    decide +kernel
  obtain ⟨wellFormed, unstaged, keeps, succeeds, apart, templates⟩ := hypotheses
  refine ⟨wellFormed, unstaged, keeps, succeeds, apart, templates, ?_⟩
  obtain ⟨outcome, written⟩ := Helper.exists_of_isOk succeeds
  have atomic : nestedFiles.tree.Atomic := nofun
  have installed := Helper.installed_of_write wellFormed.rooted unstaged written
  have again : Helper.write .default openedFiles =
      (.ok ⟨Config.default.helperFile, .unchanged, Sha256.hex Helper.content⟩, openedFiles) :=
    Helper.write_again wellFormed.rooted written
      (Run.read_helper_processAll (installed.atomic atomic) _
        (Helper.readable_of_write wellFormed.rooted written)
        (Run.apart_installed installed apart))
  have comes : ∃ path ∈ Run.expand .default nestedFiles openedPaths,
      Config.default.isEligible path = true := by decide +kernel
  have comesAgain : ∃ path ∈ Run.expand .default openedFiles openedPaths,
      Config.default.isEligible path = true := by decide +kernel
  have first : (Run.instrument .default nestedFiles openedPaths).2 = openedFiles :=
    congrArg Prod.snd (Run.instrument_of_ok comes written)
  dsimp only
  rw [first, Run.instrument_of_ok comesAgain again]
  decide +kernel

end Lenient

end TagMigration
