/-
What a run that instruments knows of the helper. The first template settles it, and what was settled
never changes again; so such a run is an attempt to put the helper in place, followed by a run like
any other if that has succeeded and by refusals if it has not.
-/
import TagMigration.Project.Run

namespace TagMigration

namespace Run

/-- The entry of a file in a run whose helper could not be put in place. -/
def refused (config : Config) (error : Error) (path : Path) : FileReport :=
  if config.isEligible path then failed config path error else skipped config path

/-- Among the files of a run there is a template, or they are all skipped. -/
theorem comes_or_skips (config : Config) (paths : List Path) :
    (∃ path ∈ paths, config.isEligible path = true) ∨
      ∀ path ∈ paths, config.isEligible path = false := by
  by_cases comes : ∃ path ∈ paths, config.isEligible path = true
  · exact .inl comes
  · exact .inr fun path member =>
      Bool.eq_false_iff.mpr fun eligible => comes ⟨path, member, eligible⟩

variable [Helper.Parser] (config : Config) (files : Workspace)

/-! ### What is known of the helper -/

@[simp]
theorem settle_ready (outcome : Helper.Outcome) :
    (HelperState.ready outcome).settle config files = (.ready outcome, files) := rfl

@[simp]
theorem settle_broken (error : Error) :
    (HelperState.broken error).settle config files = (.broken error, files) := rfl

theorem settle_of_ok {outcome : Helper.Outcome} {after : Workspace}
    (written : Helper.write config files = (.ok outcome, after)) :
    HelperState.pending.settle config files = (.ready outcome, after) := by
  unfold HelperState.settle
  generalize Helper.write config files = attempt at written
  rw [written]

theorem settle_of_error {error : Error} {after : Workspace}
    (failed : Helper.write config files = (.error error, after)) :
    HelperState.pending.settle config files = (.broken error, after) := by
  unfold HelperState.settle
  generalize Helper.write config files = attempt at failed
  rw [failed]

/-- Files that are no templates settle nothing. -/
theorem instrumentAll_of_skipped (state : HelperState) {paths : List Path}
    (skips : ∀ path ∈ paths, config.isEligible path = false) :
    instrumentAll config state files paths = (paths.map (skipped config), state, files) := by
  induction paths with
  | nil => rfl
  | cons path rest inductionHypothesis =>
    rw [instrumentAll, skips path List.mem_cons_self,
      inductionHypothesis fun other member => skips other (List.mem_cons_of_mem _ member)]
    rfl

/-- With the helper in place, templates are processed as in any other run. -/
theorem instrumentAll_ready (outcome : Helper.Outcome) (paths : List Path) :
    instrumentAll config (.ready outcome) files paths =
      let processed := processAll config (fun _ => Template.instrument) files paths
      (processed.1, .ready outcome, processed.2) := by
  induction paths generalizing files with
  | nil => rfl
  | cons path rest inductionHypothesis =>
    rw [instrumentAll, processAll]
    split <;> simp only [settle_ready, inductionHypothesis]

/-- Without the helper, every template is refused. -/
theorem instrumentAll_broken (error : Error) (paths : List Path) :
    instrumentAll config (.broken error) files paths =
      (paths.map (refused config error), .broken error, files) := by
  induction paths with
  | nil => rfl
  | cons path rest inductionHypothesis =>
    rw [instrumentAll, List.map_cons, refused]
    split <;> simp only [settle_broken, inductionHypothesis]

theorem settle_settle (state : HelperState) :
    let settled := state.settle config files
    settled.1.settle config settled.2 = settled := by
  cases state with
  | pending =>
    cases attempt : Helper.write config files with
    | mk result after =>
      cases result with
      | error error =>
        rw [settle_of_error config files attempt]
        rfl
      | ok outcome =>
        rw [settle_of_ok config files attempt]
        rfl
  | ready outcome => rfl
  | broken error => rfl

/-- If there is a template among the files, the helper might as well be settled before all of
them. -/
theorem instrumentAll_settle (state : HelperState) {paths : List Path}
    (comes : ∃ path ∈ paths, config.isEligible path = true) :
    instrumentAll config state files paths =
      let settled := state.settle config files
      instrumentAll config settled.1 settled.2 paths := by
  induction paths with
  | nil =>
    obtain ⟨path, member, -⟩ := comes
    cases member
  | cons path rest inductionHypothesis =>
    simp only
    rw [instrumentAll, instrumentAll, settle_settle]
    split
    · rfl
    · next notEligible =>
      obtain ⟨other, member, eligible⟩ := comes
      rcases List.mem_cons.mp member with rfl | inRest
      · exact absurd eligible notEligible
      · rw [inductionHypothesis ⟨other, inRest, eligible⟩]

/-- If the helper can be put in place, it is, by the time the run comes to a template. -/
theorem settle_instrumentAll {outcome : Helper.Outcome} {after : Workspace}
    (written : Helper.write config files = (.ok outcome, after)) (first : List Path) :
    let early := instrumentAll config .pending files first
    (early.2.1.settle config early.2.2).1 = .ready outcome := by
  rcases comes_or_skips config first with comes | skips
  · rw [instrumentAll_settle config files .pending comes, settle_of_ok config files written]
    simp only [instrumentAll_ready, settle_ready]
  · rw [instrumentAll_of_skipped config files .pending skips]
    simp only [settle_of_ok config files written]

/-- With the helper in place, a template is processed and the run goes on. -/
theorem instrumentAll_cons_of_ready {config : Config} {state : HelperState} {files : Workspace}
    {outcome : Helper.Outcome} {path : Path} (eligible : config.isEligible path = true)
    (isReady : (state.settle config files).1 = .ready outcome) (rest : List Path) :
    instrumentAll config state files (path :: rest) =
      let settled := state.settle config files
      let done := processFile config Template.instrument settled.2 path
      let late := instrumentAll config settled.1 done.2 rest
      (done.1 :: late.1, late.2) := by
  rw [instrumentAll, if_pos eligible]
  simp only [isReady]

/-! ### A run -/

variable {config files} {paths : List Path}

theorem instrument_of_skipped
    (skips : ∀ path ∈ expand config files paths, config.isEligible path = false) :
    instrument config files paths =
      (⟨.instrument, (expand config files paths).map (skipped config), none⟩, files) := by
  rw [instrument, instrumentAll_of_skipped config files .pending skips]
  rfl

theorem instrument_of_ok {outcome : Helper.Outcome} {after : Workspace}
    (comes : ∃ path ∈ expand config files paths, config.isEligible path = true)
    (written : Helper.write config files = (.ok outcome, after)) :
    instrument config files paths =
      let processed := processAll config (fun _ => Template.instrument) after
        (expand config files paths)
      (⟨.instrument, processed.1, some outcome⟩, processed.2) := by
  rw [instrument, instrumentAll_settle config files .pending comes, settle_of_ok config files written]
  simp only [instrumentAll_ready]
  rfl

theorem instrument_of_error {error : Error} {after : Workspace}
    (comes : ∃ path ∈ expand config files paths, config.isEligible path = true)
    (failed : Helper.write config files = (.error error, after)) :
    instrument config files paths =
      (⟨.instrument, (expand config files paths).map (refused config error), none⟩, after) := by
  rw [instrument, instrumentAll_settle config files .pending comes,
    settle_of_error config files failed]
  simp only [instrumentAll_broken]
  rfl

end Run

end TagMigration
