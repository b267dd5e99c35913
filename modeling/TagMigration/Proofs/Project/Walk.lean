/-
Walks through a file tree. A walk goes through the names in a directory in increasing order, and
when it meets a subdirectory it goes through that before it goes on. A tree keeps its entries in
the order of their places. In this order a directory is followed by what is below it, and what
is below a name comes before what is below a later one. So a walk meets the entries below a
directory as the tree keeps them, also where the name of a directory begins the name of a file.
-/
import Mathlib.Data.List.Perm.Lattice
import TagMigration.Proofs.Project.Expansion

namespace TagMigration.FileTree

variable {tree : FileTree} {place : List String} {name : String} {entry : Entry}

/-! ### Walking -/

/-- The names of what stands in a directory, in increasing order. -/
def namesIn (tree : FileTree) (place : List String) : List String :=
  (tree.entries.filterMap fun (key, _) => if key.dropLast = place then key.getLast? else none)
    |>.mergeSort fun first second => decide (first ≤ second)

/-- The entries at places below a place. -/
def inside (tree : FileTree) (place : List String) : List (List String × Entry) :=
  tree.entries.filter fun entry => place.isPrefixOf entry.1 && entry.1 != place

theorem mem_inside {found : List String × Entry} : found ∈ tree.inside place ↔
    found ∈ tree.entries ∧ place <+: found.1 ∧ found.1 ≠ place := by
  simp [inside, List.isPrefixOf_iff_prefix]

theorem mem_entries_of_get? (found : tree.get? place = some entry) (named : place ≠ []) :
    (place, entry) ∈ tree.entries := by
  rw [get?, if_neg (by simpa using named), Option.map_eq_some_iff] at found
  obtain ⟨⟨key, other⟩, isFound, rfl⟩ := found
  obtain rfl : key = place := by simpa using List.find?_some isFound
  exact List.mem_of_find?_eq_some isFound

/-- Fewer entries are below an entry than below the directory it stands in. -/
theorem length_inside_lt (found : tree.get? (place ++ [name]) = some entry) :
    (tree.inside (place ++ [name])).length < (tree.inside place).length := by
  have narrowed : tree.inside (place ++ [name]) = (tree.inside place).filter fun entry =>
      (place ++ [name]).isPrefixOf entry.1 && entry.1 != place ++ [name] := by
    rw [inside, inside, List.filter_filter]
    refine List.filter_congr fun other _ => ?_
    rw [Bool.eq_iff_iff]
    simp only [Bool.and_eq_true, List.isPrefixOf_iff_prefix, bne_iff_ne]
    refine (and_iff_left_of_imp ?_).symm
    rintro ⟨isBelow, -⟩
    refine ⟨(List.prefix_append place [name]).trans isBelow, fun same => ?_⟩
    rw [same] at isBelow
    exact absurd isBelow.length_le (by simp)
  have isInside : (place ++ [name], entry) ∈ tree.inside place :=
    mem_inside.mpr ⟨mem_entries_of_get? found (by simp), List.prefix_append _ _, by simp⟩
  rw [narrowed, List.length_filter_lt_length_iff_exists]
  exact ⟨_, isInside, by simp⟩

/-- What a walk meets below a place: the names there in increasing order, and after a directory
what is below it. -/
def walk (tree : FileTree) (place : List String) : List (List String × Entry) :=
  (tree.namesIn place).flatMap fun name =>
    match _found : tree.get? (place ++ [name]) with
    | none => []
    | some (.file content) => [([name], .file content)]
    | some .directory => ([name], .directory) ::
      (tree.walk (place ++ [name])).map fun (names, entry) => (name :: names, entry)
termination_by (tree.inside place).length
decreasing_by exact length_inside_lt _found

/-- What a walk meets at a name: the entry that stands there and, if that is a directory, what a
walk meets below it. -/
def visit (tree : FileTree) (place : List String) (name : String) : List (List String × Entry) :=
  match tree.get? (place ++ [name]) with
  | none => []
  | some (.file content) => [([name], .file content)]
  | some .directory => ([name], .directory) ::
    (tree.walk (place ++ [name])).map fun (names, entry) => (name :: names, entry)

theorem walk_eq (tree : FileTree) (place : List String) :
    tree.walk place = (tree.namesIn place).flatMap (tree.visit place) := by
  rw [walk]
  refine congrArg (List.flatMap · _) (funext fun name => ?_)
  rw [visit]
  split <;> simp [*]

theorem mem_visit {names : List String} : (names, entry) ∈ tree.visit place name ↔
    names = [name] ∧ tree.get? (place ++ [name]) = some entry ∨
      ∃ more, names = name :: more ∧ tree.get? (place ++ [name]) = some .directory ∧
        (more, entry) ∈ tree.walk (place ++ [name]) := by
  rw [visit]
  cases tree.get? (place ++ [name]) with
  | none => simp
  | some other => cases other <;> simp [eq_comm, and_comm]

/-! ### Names in a directory -/

theorem before_append (place first second : List String) :
    before (place ++ first) (place ++ second) = before first second := by
  induction place with
  | nil => rfl
  | cons name place inductionHypothesis => simp [before, inductionHypothesis]

theorem eq_concat_iff {key : List String} :
    key.dropLast = place ∧ key.getLast? = some name ↔ key = place ++ [name] := by
  constructor
  · rintro ⟨rfl, isLast⟩
    exact (List.dropLast_append_getLast? name isLast).symm
  · rintro rfl
    simp

theorem mem_namesIn (ordered : tree.Ordered) :
    name ∈ tree.namesIn place ↔ ∃ entry, tree.get? (place ++ [name]) = some entry := by
  simp only [namesIn, List.mem_mergeSort, List.mem_filterMap, Option.ite_none_right_eq_some,
    eq_concat_iff, Prod.exists]
  constructor
  · rintro ⟨_, entry, member, rfl⟩
    exact ⟨entry, (ordered.mem_entries (by simp)).mp member⟩
  · rintro ⟨entry, found⟩
    exact ⟨_, entry, (ordered.mem_entries (by simp)).mpr found, rfl⟩

theorem namesIn_pairwise (ordered : tree.Ordered) (place : List String) :
    (tree.namesIn place).Pairwise (· < ·) := by
  have increasing : (tree.entries.filterMap fun (key, _) =>
      if key.dropLast = place then key.getLast? else none).Pairwise (· < ·) := by
    refine List.Pairwise.filterMap _ ?_ ordered
    intro one other less first isFirst second isSecond
    simp only [Option.ite_none_right_eq_some, eq_concat_iff] at isFirst isSecond
    rw [isFirst, isSecond, before_append, before_cons] at less
    exact less.resolve_right fun same => before_irrefl _ same.2
  -- The names come in order already, so sorting them leaves them as they are.
  rw [namesIn, List.mergeSort_of_pairwise]
  · exact increasing
  · refine increasing.imp fun less => ?_
    simpa using String.not_lt.mp (String.lt_asymm less)

/-! ### The order of a walk -/

/-- Every entry is at a place before those of the entries that follow it. -/
def Increasing (entries : List (List String × Entry)) : Prop :=
  entries.Pairwise fun first second => before first.1 second.1 = true

theorem Increasing.nodup {entries : List (List String × Entry)} (increasing : Increasing entries) :
    entries.Nodup := by
  refine increasing.imp fun {first second} less same => ?_
  rw [same] at less
  exact before_irrefl _ less

theorem Ordered.increasing_below (ordered : tree.Ordered) (place : List String) :
    Increasing (tree.below place) := by
  refine List.Pairwise.filterMap _ ?_ ordered
  intro one other less first isFirst second isSecond
  simp only [Option.ite_none_right_eq_some, Bool.and_eq_true, List.isPrefixOf_iff_prefix,
    Option.some.injEq] at isFirst isSecond
  obtain ⟨⟨⟨rest, isRest⟩, -⟩, rfl⟩ := isFirst
  obtain ⟨⟨⟨more, isMore⟩, -⟩, rfl⟩ := isSecond
  rw [← isRest, ← isMore, before_append] at less
  simpa [← isRest, ← isMore] using less

namespace WellFormed

/-- A walk meets all that is below the place where it starts, and nothing else. -/
theorem mem_walk (wellFormed : tree.WellFormed) {names : List String} :
    (names, entry) ∈ tree.walk place ↔
      names ≠ [] ∧ tree.get? (place ++ names) = some entry := by
  induction place using walk.induct tree generalizing names with
  | case1 place inductionHypothesis =>
    rw [walk_eq, List.mem_flatMap]
    simp only [mem_namesIn wellFormed.ordered, mem_visit]
    constructor
    · rintro ⟨name, -, ⟨rfl, found⟩ | ⟨more, rfl, found, inWalk⟩⟩
      · exact ⟨by simp, found⟩
      · obtain ⟨-, there⟩ := (inductionHypothesis name found).mp inWalk
        rw [List.append_assoc] at there
        exact ⟨by simp, there⟩
    · rintro ⟨named, found⟩
      obtain ⟨name, more, rfl⟩ := List.exists_cons_of_ne_nil named
      by_cases last : more = []
      · subst last
        exact ⟨name, ⟨entry, found⟩, .inl ⟨rfl, found⟩⟩
      · rw [← List.singleton_append, ← List.append_assoc] at found
        have directory := wellFormed.above found last
        exact ⟨name, ⟨_, directory⟩, .inr ⟨more, rfl, directory,
          (inductionHypothesis name directory).mpr ⟨last, found⟩⟩⟩

/-- A walk meets places in increasing order. -/
theorem increasing_walk (wellFormed : tree.WellFormed) (place : List String) :
    Increasing (tree.walk place) := by
  induction place using walk.induct tree with
  | case1 place inductionHypothesis =>
    rw [Increasing, walk_eq, List.pairwise_flatMap]
    constructor
    · intro name _
      rw [visit]
      split
      · exact .nil
      · exact List.pairwise_singleton _ _
      · next found =>
        refine List.pairwise_cons.mpr ⟨fun other member => ?_, ?_⟩
        · obtain ⟨⟨more, entry⟩, inWalk, rfl⟩ := List.mem_map.mp member
          obtain ⟨named, -⟩ := wellFormed.mem_walk.mp inWalk
          obtain ⟨next, rest, rfl⟩ := List.exists_cons_of_ne_nil named
          exact before_cons.mpr (.inr ⟨rfl, rfl⟩)
        · refine List.pairwise_map.mpr ((inductionHypothesis name found).imp fun less => ?_)
          exact before_cons.mpr (.inr ⟨rfl, less⟩)
    · have starts {name : String} {found : List String × Entry}
          (member : found ∈ tree.visit place name) : ∃ more, found.1 = name :: more := by
        rcases mem_visit.mp member with ⟨isName, -⟩ | ⟨more, isMore, -⟩
        · exact ⟨[], isName⟩
        · exact ⟨more, isMore⟩
      refine (namesIn_pairwise wellFormed.ordered place).imp fun {first second} less => ?_
      intro one inFirst other inSecond
      obtain ⟨rest, isFirst⟩ := starts inFirst
      obtain ⟨more, isSecond⟩ := starts inSecond
      rw [isFirst, isSecond]
      exact before_cons.mpr (.inl less)

/-- The entries below a directory, in the order of their places, come as a walk meets them. -/
theorem walk_eq_below (wellFormed : tree.WellFormed) (place : List String) :
    tree.walk place = tree.below place := by
  have walked := wellFormed.increasing_walk place
  have kept := wellFormed.ordered.increasing_below place
  refine List.Perm.eq_of_pairwise (fun first second _ _ less back => ?_) walked kept ?_
  · exact absurd (before_trans less back) (before_irrefl _)
  · refine (List.perm_ext_iff_of_nodup walked.nodup kept.nodup).mpr fun (names, entry) => ?_
    rw [wellFormed.mem_walk, wellFormed.ordered.mem_below]

end WellFormed

end TagMigration.FileTree
