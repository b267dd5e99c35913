/-
Runs in another order. When the paths of a run spell out different places, none of them reads what
another one writes. So what becomes of a file is decided by the files as they were at the beginning,
and the order of the paths decides nothing but the order of the report.
-/
import TagMigration.Proofs.Project.Contents
import TagMigration.Proofs.Project.HelperFirst

namespace TagMigration

namespace Run

variable {config : Config} {pass : Path → Template → PassResult} {files : Workspace}
  {first second paths : List Path}

/-- The paths spell out different places. -/
def Apart (files : Workspace) (paths : List Path) : Prop :=
  (paths.map files.placeOf).Nodup

instance (files : Workspace) (paths : List Path) : Decidable (Apart files paths) :=
  inferInstanceAs (Decidable (List.Nodup _))

theorem Apart.perm (apart : Apart files first) (perm : first.Perm second) : Apart files second :=
  (perm.map files.placeOf).nodup_iff.mp apart

theorem apart_cons {path : Path} : Apart files (path :: paths) ↔
    (∀ other ∈ paths, files.placeOf other ≠ files.placeOf path) ∧ Apart files paths := by
  rw [Apart, List.map_cons, List.nodup_cons, List.mem_map, not_exists]
  refine and_congr_left fun _ => forall_congr' fun other => ?_
  rw [not_and]

/-- Where paths lead depends on where relative paths start from only. -/
theorem apart_congr {after : Workspace} (here : after.here = files.here) :
    Apart after paths ↔ Apart files paths := by
  have same : after.placeOf = files.placeOf := funext (Workspace.placeOf_congr here)
  rw [Apart, same]
  rfl

theorem apart_proceed {path : Path} (apart : Apart files paths) :
    Apart (proceed config pass files path) paths :=
  (apart_congr refilled_proceed.here).mpr apart

/-! ### One pass -/

/-- The entry of each file is the one it would have if it were the first. -/
theorem reports_processAll (config : Config) (pass : Path → Template → PassResult)
    (apart : Apart files paths) :
    (processAll config pass files paths).1 =
      paths.map fun path => (treatment config pass files path).1 := by
  induction paths generalizing files with
  | nil => rfl
  | cons path rest inductionHypothesis =>
    obtain ⟨ne, further⟩ := apart_cons.mp apart
    rw [processAll_cons, List.map_cons]
    simp only [inductionHypothesis (apart_proceed further)]
    refine congrArg _ (List.map_congr_left fun other member => ?_)
    rw [treatment_proceed_other (ne other member)]

/-- The files after a pass do not depend on the order of the paths. -/
theorem files_processAll (config : Config) (pass : Path → Template → PassResult)
    (perm : first.Perm second) (apart : Apart files first) :
    (processAll config pass files first).2 = (processAll config pass files second).2 := by
  induction perm generalizing files with
  | nil => rfl
  | cons path _ inductionHypothesis =>
    rw [processAll_cons, processAll_cons]
    exact inductionHypothesis (apart_proceed (apart_cons.mp apart).2)
  | swap path other rest =>
    have ne := (apart_cons.mp apart).1 path List.mem_cons_self
    simp only [processAll_cons]
    rw [proceed_comm ne]
  | trans perm _ firstHypothesis secondHypothesis =>
    exact (firstHypothesis apart).trans (secondHypothesis (apart.perm perm))

/-- Two runs end with the same files, and their reports differ in the order of the entries only: the
entry of a file is a function of its path. -/
structure SameUpToOrder (first second : List Path) (one other : RunReport × Workspace) : Prop where
  files : other.2 = one.2
  helper : other.1.helper = one.1.helper
  entries : ∃ entry : Path → FileReport,
    one.1.files = first.map entry ∧ other.1.files = second.map entry

theorem sameUpToOrder_processAll (pass : Path → Template → PassResult) (kind : Pass)
    (helper : Option Helper.Outcome) (perm : first.Perm second) (apart : Apart files first) :
    let run (paths : List Path) : RunReport × Workspace :=
      let processed := processAll config pass files paths
      (⟨kind, processed.1, helper⟩, processed.2)
    SameUpToOrder first second (run first) (run second) where
  files := (files_processAll config pass perm apart).symm
  helper := rfl
  entries := ⟨fun path => (treatment config pass files path).1,
    reports_processAll config pass apart, reports_processAll config pass (apart.perm perm)⟩

/-! ### Runs that instrument -/

/-- The helper is settled by the files as they were at the beginning, whichever template comes
first. -/
theorem sameUpToOrder_instrument [Helper.Parser]
    (perm : (expand config files first).Perm (expand config files second))
    (apart : Apart files (expand config files first)) :
    SameUpToOrder (expand config files first) (expand config files second)
      (instrument config files first) (instrument config files second) := by
  rcases comes_or_skips config (expand config files first) with comes | skips
  · have comesToo : ∃ path ∈ expand config files second, config.isEligible path = true := by
      obtain ⟨path, member, eligible⟩ := comes
      exact ⟨path, perm.mem_iff.mp member, eligible⟩
    have here := (Helper.frame_write config files).here
    cases attempt : Helper.write config files with
    | mk result after =>
      rw [attempt] at here
      cases result with
      | error error =>
        rw [instrument_of_error comes attempt, instrument_of_error comesToo attempt]
        exact ⟨rfl, rfl, refused config error, rfl, rfl⟩
      | ok outcome =>
        rw [instrument_of_ok comes attempt, instrument_of_ok comesToo attempt]
        exact sameUpToOrder_processAll _ _ _ perm ((apart_congr here).mpr apart)
  · rw [instrument_of_skipped skips,
      instrument_of_skipped fun path member => skips path (perm.mem_iff.mpr member)]
    exact ⟨rfl, rfl, skipped config, rfl, rfl⟩

end Run

/-! ### Every run -/

/-- Files are processed independently of their order. If the files that paths stand for have
different places, then a run over the same paths in another order, be it one that instruments,
strips or migrates, leaves the same files, reports the same of the helper, and has the same entry
for each file, whatever is missing, broken or no template. -/
theorem run_reordered [Helper.Parser] (config : Config) (files : Workspace)
    (first second : List Path) (batch : Batch) (perm : first.Perm second)
    (apart : Run.Apart files (Run.expand config files first)) :
    Run.SameUpToOrder (Run.expand config files first) (Run.expand config files second)
      (batch.run config files first) (batch.run config files second) := by
  have expanded : (Run.expand config files first).Perm (Run.expand config files second) :=
    perm.flatMap_right _
  cases batch with
  | instrument => exact Run.sameUpToOrder_instrument expanded apart
  | strip => exact Run.sameUpToOrder_processAll _ _ _ expanded apart
  | migrate aggregate => exact Run.sameUpToOrder_processAll _ _ _ expanded apart

/-- The paths of the mixed files, the template that can be read first. -/
def turnedPaths : List Path :=
  [⟨"b.hbs"⟩, ⟨"c.txt"⟩, ⟨"gone.hbs"⟩, ⟨"d.hbs"⟩, ⟨"a.hbs"⟩]

attribute [local instance] Helper.Parser.lenient in
theorem run_reordered_mixedFiles :
    Run.SameUpToOrder mixedPaths turnedPaths
      (Batch.run .default mixedFiles mixedPaths .instrument)
      (Batch.run .default mixedFiles turnedPaths .instrument) := by
  have expanded : Run.expand .default mixedFiles mixedPaths = mixedPaths ∧
      Run.expand .default mixedFiles turnedPaths = turnedPaths := by decide +kernel
  have same := run_reordered .default mixedFiles mixedPaths turnedPaths .instrument (by decide)
    (by rw [expanded.1]; decide +kernel)
  rwa [expanded.1, expanded.2] at same

end TagMigration
