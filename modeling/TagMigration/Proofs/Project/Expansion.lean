/-
What paths stand for, before and after the helper was put in place. A path that leads to a directory
stands for the templates below it. In a file tree as there is one, with all directories on the way to
an entry, new directories hold nothing but the helper. So if the only directories that are opened
up to a path are new ones, then it stands for the same files as before, and perhaps the helper.
-/
import Mathlib.Data.List.Induction
import TagMigration.Proofs.Project.Contents
import TagMigration.Proofs.Project.HelperWrite
import TagMigration.Proofs.Project.Names

namespace TagMigration

/-! ### File trees as there are -/

/-- The entries of a tree are in order, each stands in a directory, and their names are proper. -/
structure FileTree.WellFormed (tree : FileTree) : Prop where
  ordered : tree.Ordered
  inside : ∀ entry ∈ tree.entries, tree.get? entry.1.dropLast = some .directory
  named : ∀ entry ∈ tree.entries, ∀ name ∈ entry.1, Path.IsProper name

instance (tree : FileTree) : Decidable tree.WellFormed :=
  decidable_of_iff (tree.Ordered ∧
      (∀ entry ∈ tree.entries, tree.get? entry.1.dropLast = some .directory) ∧
      ∀ entry ∈ tree.entries, ∀ name ∈ entry.1, Path.IsProper name)
    ⟨fun ⟨ordered, inside, named⟩ => ⟨ordered, inside, named⟩,
      fun ⟨ordered, inside, named⟩ => ⟨ordered, inside, named⟩⟩

section Tree

variable {tree : FileTree} {place : List String} {entry : FileTree.Entry}

/-- All places above an entry are directories. -/
theorem FileTree.WellFormed.above (wellFormed : tree.WellFormed) {names : List String}
    (found : tree.get? (place ++ names) = some entry) (named : names ≠ []) :
    tree.get? place = some .directory := by
  induction names using List.reverseRecOn generalizing entry with
  | nil => exact absurd rfl named
  | append_singleton names name inductionHypothesis =>
    have member : (place ++ (names ++ [name]), entry) ∈ tree.entries :=
      (wellFormed.ordered.mem_entries (by simp)).mpr found
    have inside := wellFormed.inside _ member
    rw [← List.append_assoc, List.dropLast_concat] at inside
    by_cases last : names = []
    · rwa [last, List.append_nil] at inside
    · exact inductionHypothesis inside last

theorem FileTree.WellFormed.reaches (wellFormed : tree.WellFormed)
    (found : tree.get? place = some .directory) : Workspace.Reaches tree place := by
  rintro above ⟨names, rfl⟩
  by_cases last : names = []
  · rwa [last, List.append_nil] at found
  · exact wellFormed.above found last

theorem FileTree.WellFormed.isProper (wellFormed : tree.WellFormed)
    (found : tree.get? place = some entry) : ∀ name ∈ place, Path.IsProper name := by
  by_cases root : place = []
  · rw [root]
    exact List.forall_mem_nil _
  · exact wellFormed.named _ ((wellFormed.ordered.mem_entries root).mpr found)

end Tree

namespace Workspace

/-- Files as a run finds them: the tree is well-formed and the place that relative paths start from
is a directory. -/
structure WellFormed (files : Workspace) : Prop where
  tree : files.tree.WellFormed
  here : files.tree.get? files.here = some .directory

instance (files : Workspace) : Decidable files.WellFormed :=
  decidable_of_iff (files.tree.WellFormed ∧ files.tree.get? files.here = some .directory)
    ⟨fun ⟨tree, here⟩ => ⟨tree, here⟩, fun ⟨tree, here⟩ => ⟨tree, here⟩⟩

theorem WellFormed.rooted {files : Workspace} (wellFormed : files.WellFormed) : files.Rooted :=
  wellFormed.tree.reaches wellFormed.here

/-! ### Directories that stay -/

/-- A way to a directory stays open as long as the directories stay. -/
theorem Leads.directory {tree after : FileTree} {place pieces : List String} {spot : Spot}
    (leads : Leads tree place pieces spot) {target : List String}
    (isDirectory : spot = .taken target .directory)
    (stays : ∀ place, tree.get? place = some .directory → after.get? place = some .directory) :
    Leads after place pieces (.taken target .directory) := by
  induction leads with
  | stop found =>
    cases isDirectory
    exact .stop (stays _ found)
  | idle inside isIdle _ inductionHypothesis =>
    exact .idle (stays _ inside) isIdle (inductionHypothesis isDirectory)
  | up inside _ inductionHypothesis =>
    exact .up (stays _ inside) (inductionHypothesis isDirectory)
  | @enter place rest piece entry spot inside isName found more inductionHypothesis =>
    have further := inductionHypothesis isDirectory
    -- What the way enters is a directory, for it goes on from there or ends there.
    have isInside : after.get? (place ++ [piece]) = some .directory := by
      cases further with
      | stop found => exact found
      | idle inside | up inside | enter inside => exact inside
    exact .enter (stays _ inside) isName isInside further
  | free => cases isDirectory

theorem directory?_eq_some {files : Workspace} {path : Path} {place : List String} :
    files.directory? path = some place ↔
      files.locate path = .ok (.taken place .directory) := by
  rw [directory?]
  obtain fault | spot := files.locate path
  · simp
  · obtain ⟨found, content | _⟩ | _ := spot <;> simp

theorem directory?_of_stays {files after : Workspace} (here : after.here = files.here)
    (stays : ∀ place, files.tree.get? place = some .directory →
      after.tree.get? place = some .directory)
    {path : Path} {place : List String} (leads : files.directory? path = some place) :
    after.directory? path = some place := by
  rw [directory?_eq_some, locate] at leads ⊢
  rw [here]
  split at leads
  · cases leads
  · split at leads
    · cases leads
    · split at leads
      · cases leads
      · next hasNul isEmpty isLong =>
        rw [if_neg hasNul, if_neg isEmpty, if_neg isLong]
        exact ((leads_of_follow leads).directory rfl stays).follow

theorem text_of_directory? {files : Workspace} {path : Path} {place : List String}
    (leads : files.directory? path = some place) : path.text.isEmpty = false := by
  rw [directory?_eq_some, locate] at leads
  split at leads
  · cases leads
  · split at leads
    · cases leads
    · next isEmpty => exact Bool.eq_false_iff.mpr isEmpty

end Workspace

/-! ### What a path stands for -/

namespace Run

variable {config : Config} {files after : Workspace} {path found : Path}

/-- A path stands for itself, or for the templates below the directory that it leads to. -/
theorem mem_expandPath (ordered : files.tree.Ordered) : found ∈ expandPath config files path ↔
    files.directory? path = none ∧ found = path ∨
      ∃ place names, files.directory? path = some place ∧ names ≠ [] ∧
        (∃ content, files.tree.get? (place ++ names) = some (.file content)) ∧
        found = names.foldl (fun path name => path.join ⟨name⟩) path ∧
        config.isEligible found = true := by
  rw [expandPath]
  cases leads : files.directory? path with
  | none => simp
  | some place =>
    simp only [List.mem_filterMap, reduceCtorEq, false_and, Option.some.injEq, false_or]
    constructor
    · rintro ⟨⟨names, entry⟩, member, isFound⟩
      obtain ⟨named, there⟩ := ordered.mem_below.mp member
      cases entry with
      | directory => cases isFound
      | file content =>
        simp only [Option.ite_none_right_eq_some, Option.some.injEq] at isFound
        obtain ⟨eligible, rfl⟩ := isFound
        exact ⟨place, names, rfl, named, ⟨content, there⟩, rfl, eligible⟩
    · rintro ⟨_, names, rfl, named, ⟨content, there⟩, rfl, eligible⟩
      exact ⟨(names, .file content), ordered.mem_below.mpr ⟨named, there⟩, if_pos eligible⟩

/-- New contents of files do not change what a path stands for. -/
theorem mem_expand_refilled (refilled : files.Refilled after) (ordered : files.tree.Ordered)
    {paths : List Path} : found ∈ expand config after paths ↔ found ∈ expand config files paths := by
  rw [expand, expand, List.mem_flatMap, List.mem_flatMap]
  refine exists_congr fun path => and_congr_right fun _ => ?_
  rw [mem_expandPath ordered, mem_expandPath (refilled.ordered ordered), refilled.directory]
  simp only [refilled.file]

end Run

end TagMigration
