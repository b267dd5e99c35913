/-
Contents that come to rest. What a pass makes of a file is a function of the content of that file,
so a run makes of each file what it makes of it at the first path that leads there; the other paths
find that result. If it is at rest, which means that the pass makes nothing else of it, then the
result stays, and a further run finds nothing to do. A file that cannot be written stays too, as
long as no writing is cut off.
-/
import TagMigration.Proofs.Project.Contents

namespace TagMigration

/-! ### Texts and bytes -/

theorem fromUTF8?_toUTF8 (text : String) : String.fromUTF8? text.toUTF8 = some text := by
  rw [String.fromUTF8?, dif_pos (show text.toUTF8.IsValidUTF8 from text.isValidUTF8)]
  rfl

theorem toUTF8_of_fromUTF8? {content : ByteArray} {text : String}
    (isText : String.fromUTF8? content = some text) : text.toUTF8 = content := by
  rw [String.fromUTF8?] at isText
  split at isText
  · cases isText
    rfl
  · cases isText

theorem toUTF8_inj {first second : String} : first.toUTF8 = second.toUTF8 ↔ first = second := by
  refine ⟨fun same => ?_, congrArg String.toUTF8⟩
  have read := fromUTF8?_toUTF8 first
  rw [same, fromUTF8?_toUTF8] at read
  exact (Option.some.inj read).symm

namespace Run

/-! ### One content -/

/-- What a pass leaves of the content of a template. A content that is no text, or that the pass
fails on, stays. -/
def rework (pass : Template → PassResult) (identity : String) (content : ByteArray) : ByteArray :=
  match String.fromUTF8? content with
  | none => content
  | some source =>
    match transform pass source identity with
    | .error _ => content
    | .ok (code, _) => code.toUTF8

section Content

variable {config : Config} {path : Path} {content : ByteArray}

/-- Where writing is not refused, the file holds what the pass makes of its content. -/
theorem getD_verdict (config : Config) (pass : Template → PassResult) (path : Path)
    (content : ByteArray) :
    (verdict config pass path none (.ok content)).2.getD content =
      rework pass (config.identityFor path) content := by
  rw [verdict, rework]
  cases isText : String.fromUTF8? content with
  | none => rfl
  | some source =>
    simp only
    cases transform pass source (config.identityFor path) with
    | error error => rfl
    | ok made =>
      simp only
      by_cases same : made.1 = source ∧ config.writeUnchanged = false
      · rw [if_pos same, same.1, toUTF8_of_fromUTF8? isText]
        rfl
      · rw [if_neg same]
        rfl

/-- Where the file is not opened for writing, it stays as it is. -/
theorem verdict_of_closed (config : Config) (pass : Template → PassResult) (path : Path)
    (fault : FileFault) (read : Except FileFault ByteArray) :
    (verdict config pass path (some (.closed fault)) read).2 = none ∧
      ((verdict config pass path (some (.closed fault)) read).1.status = .unchanged ∨
        ∃ error, (verdict config pass path (some (.closed fault)) read).1.status =
          .failed error) := by
  cases read with
  | error fault => exact ⟨rfl, .inr ⟨_, rfl⟩⟩
  | ok content =>
    rw [verdict]
    cases String.fromUTF8? content with
    | none => exact ⟨rfl, .inr ⟨_, rfl⟩⟩
    | some source =>
      simp only
      cases transform pass source (config.identityFor path) with
      | error error => exact ⟨rfl, .inr ⟨_, rfl⟩⟩
      | ok made =>
        simp only
        split
        · exact ⟨rfl, .inl rfl⟩
        · exact ⟨rfl, .inr ⟨_, rfl⟩⟩

/-- A content at rest is not written again: the entry of the file says that it stayed, or why it
could not be processed. -/
theorem verdict_of_rest {pass : Template → PassResult} (keeps : config.writeUnchanged = false)
    (refusal : Option FileTree.Refusal)
    (rest : rework pass (config.identityFor path) content = content) :
    (verdict config pass path refusal (.ok content)).2 = none ∧
      ((verdict config pass path refusal (.ok content)).1.status = .unchanged ∨
        ∃ error, (verdict config pass path refusal (.ok content)).1.status = .failed error) := by
  rw [verdict]
  rw [rework] at rest
  cases isText : String.fromUTF8? content with
  | none => exact ⟨rfl, .inr ⟨_, rfl⟩⟩
  | some source =>
    rw [isText] at rest
    simp only at rest ⊢
    cases transforms : transform pass source (config.identityFor path) with
    | error error => exact ⟨rfl, .inr ⟨_, rfl⟩⟩
    | ok made =>
      simp only [transforms] at rest ⊢
      have same : made.1 = source :=
        toUTF8_inj.mp (rest.trans (toUTF8_of_fromUTF8? isText).symm)
      rw [if_pos ⟨same, keeps⟩]
      exact ⟨rfl, .inl rfl⟩

theorem path_handle (config : Config) (pass : Path → Template → PassResult) (path : Path)
    (refusal : Option FileTree.Refusal) (read : Except FileFault ByteArray) :
    (handle config pass path refusal read).1.path = path := by
  rw [handle]
  split
  · cases read with
    | error fault => rfl
    | ok content =>
      simp only [verdict]
      split
      · rfl
      · split
        · rfl
        · split
          · rfl
          · obtain _ | ⟨fault⟩ | ⟨size, fault⟩ := refusal <;> rfl
  · rfl

end Content

/-! ### One path -/

section Path

variable {config : Config} {pass : Path → Template → PassResult} {files : Workspace} {path : Path}
  {content : ByteArray}

/-- The content that a template file has after its path, if it can be written. -/
theorem get?_proceed_self (eligible : config.isEligible path = true)
    (read : files.read path = .ok content) (writable : refusal? files path = none) :
    (proceed config pass files path).tree.get? (files.placeOf path) =
      some (.file (rework (pass path) (config.identityFor path) content)) := by
  have there := Workspace.get?_of_read read
  have result := getD_verdict config (pass path) path content
  rw [proceed, treatment, read, writable, handle, if_pos eligible]
  cases made : (verdict config (pass path) path none (.ok content)).2 with
  | none =>
    rw [made, Option.getD_none] at result
    rw [renew, there, ← result]
  | some new =>
    rw [made, Option.getD_some] at result
    rw [renew, ← result]
    exact files.tree.get?_put_self _ _ (Workspace.ne_nil_of_file there)

/-- A file that is refused stays, unless the writing is cut off. -/
theorem proceed_of_refused (atomic : files.tree.Atomic) (refused : refusal? files path ≠ none) :
    proceed config pass files path = files ∧
      (config.isEligible path = true → (treatment config pass files path).1.status = .unchanged ∨
        ∃ error, (treatment config pass files path).1.status = .failed error) := by
  cases refusal : refusal? files path with
  | none => exact absurd refusal refused
  | some way =>
    cases way with
    | cut size fault => exact absurd refusal (atomic _ size fault)
    | closed fault =>
      obtain ⟨nothing, status⟩ := verdict_of_closed config (pass path) path fault (files.read path)
      rw [proceed, treatment, refusal, handle]
      split
      · rw [nothing]
        exact ⟨rfl, fun _ => status⟩
      · next notEligible => exact ⟨rfl, fun eligible => absurd eligible notEligible⟩

end Path

/-- Whether a run changes the file at a place when it comes to a path: the path is that of a
template, and the file can be read along it and be written. -/
structure Visits (config : Config) (files : Workspace) (path : Path) (place : List String) :
    Prop where
  eligible : config.isEligible path = true
  isPlace : files.placeOf path = place
  readable : ∃ content, files.read path = .ok content
  writable : refusal? files path = none

section Visits

variable {config : Config} {pass : Path → Template → PassResult} {files after : Workspace}
  {path : Path} {place : List String} {content : ByteArray}

/-- New contents of files do not change which paths lead to which files. -/
theorem visits_refilled (refilled : files.Refilled after) :
    Visits config after path place ↔ Visits config files path place := by
  have samePlace := Workspace.placeOf_congr refilled.here path
  have sameRefusal := refusal?_congr refilled.toSameSetting path
  constructor
  · rintro ⟨eligible, isPlace, readable, writable⟩
    exact ⟨eligible, samePlace ▸ isPlace, (refilled.readable path).mp readable,
      sameRefusal.symm.trans writable⟩
  · rintro ⟨eligible, isPlace, readable, writable⟩
    exact ⟨eligible, samePlace.trans isPlace, (refilled.readable path).mpr readable,
      sameRefusal.trans writable⟩

/-- The content that is read along a path is the one at the place it leads to. -/
theorem Visits.read (visits : Visits config files path place)
    (found : files.tree.get? place = some (.file content)) : files.read path = .ok content := by
  obtain ⟨-, rfl, ⟨other, read⟩, -⟩ := visits
  rw [Workspace.get?_of_read read] at found
  cases found
  exact read

theorem get?_proceed_visited (visits : Visits config files path place)
    (found : files.tree.get? place = some (.file content)) :
    (proceed config pass files path).tree.get? place =
      some (.file (rework (pass path) (config.identityFor path) content)) := by
  have self := @get?_proceed_self config pass files path _ visits.eligible (visits.read found)
    visits.writable
  rwa [visits.isPlace] at self

theorem get?_proceed_unvisited (atomic : files.tree.Atomic)
    (notVisits : ¬Visits config files path place) :
    (proceed config pass files path).tree.get? place = files.tree.get? place := by
  by_cases writable : refusal? files path = none
  · rcases proceed_cases config pass files path with ⟨-, same⟩ | ⟨old, new, read, treated, -⟩
    · rw [same]
    · refine get?_proceed_other fun isPlace => notVisits ⟨?_, isPlace.symm, ⟨old, read⟩, writable⟩
      rw [treatment, handle] at treated
      split at treated
      · next eligible => exact eligible
      · cases treated
  · rw [(proceed_of_refused atomic writable).1]

end Visits

/-! ### A whole run -/

section Run

variable {config : Config} {pass : Path → Template → PassResult} {files : Workspace}
  {paths : List Path} {place : List String} {content : ByteArray}

/-- A run puts new contents in place of contents, and that is all. -/
theorem refilled_processAll (config : Config) (pass : Path → Template → PassResult)
    (files : Workspace) (paths : List Path) :
    files.Refilled (processAll config pass files paths).2 := by
  induction paths generalizing files with
  | nil => exact Workspace.refilled_refl files
  | cons path rest inductionHypothesis =>
    rw [processAll_cons]
    exact refilled_proceed.trans (inductionHypothesis _)

/-- A content that is at rest for all paths that lead to it stays. -/
theorem get?_processAll_of_rest (atomic : files.tree.Atomic)
    (found : files.tree.get? place = some (.file content))
    (rest : ∀ path ∈ paths, Visits config files path place →
      rework (pass path) (config.identityFor path) content = content) :
    (processAll config pass files paths).2.tree.get? place = some (.file content) := by
  induction paths generalizing files with
  | nil => exact found
  | cons path more inductionHypothesis =>
    rw [processAll_cons]
    refine inductionHypothesis (refilled_proceed.atomic atomic) ?_ fun other member visits =>
      rest other (List.mem_cons_of_mem _ member) ((visits_refilled refilled_proceed).mp visits)
    by_cases visits : Visits config files path place
    · rw [get?_proceed_visited visits found, rest path List.mem_cons_self visits]
    · rw [get?_proceed_unvisited atomic visits, found]

/-- If what a pass makes of a content is at rest, then that is what the run leaves of it: the first
path that leads there settles it. -/
theorem get?_processAll_visited (atomic : files.tree.Atomic)
    (found : files.tree.get? place = some (.file content))
    (rest : ∀ path ∈ paths, Visits config files path place →
      ∀ other ∈ paths, Visits config files other place →
        rework (pass other) (config.identityFor other)
            (rework (pass path) (config.identityFor path) content) =
          rework (pass path) (config.identityFor path) content)
    {visitor : Path} (member : visitor ∈ paths) (visits : Visits config files visitor place) :
    ∃ path ∈ paths, Visits config files path place ∧
      (processAll config pass files paths).2.tree.get? place =
        some (.file (rework (pass path) (config.identityFor path) content)) := by
  induction paths generalizing files with
  | nil => cases member
  | cons path more inductionHypothesis =>
    rw [processAll_cons]
    have back {other : Path} : Visits config (proceed config pass files path) other place ↔
        Visits config files other place := visits_refilled refilled_proceed
    by_cases here : Visits config files path place
    · -- The first path to lead there settles it, and the others find it at rest.
      refine ⟨path, List.mem_cons_self, here, ?_⟩
      refine get?_processAll_of_rest (refilled_proceed.atomic atomic)
        (get?_proceed_visited here found) fun other inMore leads => ?_
      exact rest path List.mem_cons_self here other (List.mem_cons_of_mem _ inMore) (back.mp leads)
    · have inMore : visitor ∈ more := by
        rcases List.mem_cons.mp member with rfl | inMore
        · exact absurd visits here
        · exact inMore
      obtain ⟨settler, settles, leads, result⟩ := inductionHypothesis
        (refilled_proceed.atomic atomic) ((get?_proceed_unvisited atomic here).trans found)
        (fun one oneMember oneLeads other otherMember otherLeads =>
          rest one (List.mem_cons_of_mem _ oneMember) (back.mp oneLeads) other
            (List.mem_cons_of_mem _ otherMember) (back.mp otherLeads))
        inMore (back.mpr visits)
      exact ⟨settler, List.mem_cons_of_mem _ settles, back.mp leads, result⟩

/-- If all that a run reads and can write is at rest, it writes nothing. -/
theorem processAll_of_rest (atomic : files.tree.Atomic) (keeps : config.writeUnchanged = false)
    (rest : ∀ path ∈ paths, config.isEligible path = true → refusal? files path = none →
      ∀ content, files.read path = .ok content →
        rework (pass path) (config.identityFor path) content = content) :
    (processAll config pass files paths).2 = files ∧
      ∀ entry ∈ (processAll config pass files paths).1, config.isEligible entry.path = true →
        entry.status = .unchanged ∨ ∃ error, entry.status = .failed error := by
  induction paths with
  | nil => exact ⟨rfl, List.forall_mem_nil _⟩
  | cons path more inductionHypothesis =>
    obtain ⟨same, entries⟩ := inductionHypothesis fun other member =>
      rest other (List.mem_cons_of_mem _ member)
    have here : proceed config pass files path = files ∧
        (config.isEligible path = true → (treatment config pass files path).1.status = .unchanged ∨
          ∃ error, (treatment config pass files path).1.status = .failed error) := by
      by_cases writable : refusal? files path = none
      · rw [proceed, treatment, handle]
        split
        · next eligible =>
          cases read : files.read path with
          | error fault => exact ⟨rfl, fun _ => .inr ⟨_, rfl⟩⟩
          | ok content =>
            obtain ⟨nothing, status⟩ := verdict_of_rest keeps (refusal? files path)
              (rest path List.mem_cons_self eligible writable content read)
            rw [nothing]
            exact ⟨rfl, fun _ => status⟩
        · next notEligible => exact ⟨rfl, fun eligible => absurd eligible notEligible⟩
      · exact proceed_of_refused atomic writable
    rw [processAll_cons, here.1]
    refine ⟨same, fun entry member eligible => ?_⟩
    rcases List.mem_cons.mp member with rfl | inMore
    · rw [treatment, path_handle] at eligible
      exact here.2 eligible
    · exact entries entry inMore eligible

end Run

end Run

end TagMigration
