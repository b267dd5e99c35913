/-
The entries of a file tree. An entry goes in front of the first one that comes later, and the order
of places is total. So where two entries go to different places it does not matter which of them
is put first; and entries that were in increasing order stay so. In a tree with increasing entries
there is one entry for a place, the one that is found there.
-/
import TagMigration.Proofs.Project.Frame

namespace TagMigration.FileTree

/-! ### The order of places -/

theorem before_irrefl (place : List String) : ¬before place place = true := by
  induction place with
  | nil => exact nofun
  | cons first rest inductionHypothesis => simp [before, inductionHypothesis]

theorem before_cons {first second : String} {rest more : List String} :
    before (first :: rest) (second :: more) = true ↔
      first < second ∨ first = second ∧ before rest more = true := by
  simp [before]

theorem before_trans {first second third : List String} (left : before first second = true)
    (right : before second third = true) : before first third = true := by
  induction first generalizing second third with
  | nil =>
    cases third with
    | nil => cases second <;> cases right
    | cons name names => rfl
  | cons name names inductionHypothesis =>
    cases second with
    | nil => cases left
    | cons other others =>
      cases third with
      | nil => cases right
      | cons last lasts =>
        rw [before_cons] at left right ⊢
        rcases left with left | ⟨rfl, left⟩ <;> rcases right with right | ⟨rfl, right⟩
        · exact .inl (String.lt_trans left right)
        · exact .inl left
        · exact .inl right
        · exact .inr ⟨rfl, inductionHypothesis left right⟩

/-- Of two places one is before the other. -/
theorem before_of_not_before {first second : List String} (ne : first ≠ second)
    (not : ¬before first second = true) : before second first = true := by
  induction first generalizing second with
  | nil =>
    cases second with
    | nil => exact absurd rfl ne
    | cons name names => exact absurd rfl not
  | cons name names inductionHypothesis =>
    cases second with
    | nil => rfl
    | cons other others =>
      simp only [before_cons, not_or, not_and, String.not_lt] at not ⊢
      obtain ⟨notLess, further⟩ := not
      by_cases same : name = other
      · subst same
        exact .inr ⟨rfl, inductionHypothesis (fun equal => ne (equal ▸ rfl)) (further rfl)⟩
      · exact .inl (String.not_le.mp fun less => same (String.le_antisymm less notLess))

/-! ### Putting entries -/

section Insert

variable {place other : List String} {entry : Entry} {entries : List (List String × Entry)}

theorem eq_or_mem_of_mem_insert {found : List String × Entry}
    (member : found ∈ insert place entry entries) : found = (place, entry) ∨ found ∈ entries := by
  induction entries with
  | nil => exact .inl (List.mem_singleton.mp member)
  | cons head rest inductionHypothesis =>
    rw [insert] at member
    split at member
    · exact (List.mem_cons.mp member).imp_right (List.mem_cons_of_mem _)
    · split at member
      · exact List.mem_cons.mp member
      · rcases List.mem_cons.mp member with rfl | inRest
        · exact .inr List.mem_cons_self
        · exact (inductionHypothesis inRest).imp_right (List.mem_cons_of_mem _)

theorem insert_before {head : List String × Entry} {rest : List (List String × Entry)}
    (less : before place head.1 = true) :
    insert place entry (head :: rest) = (place, entry) :: head :: rest := by
  rw [insert, if_neg fun same => before_irrefl _ (same ▸ less), if_pos less]

theorem insert_after {head : List String × Entry} {rest : List (List String × Entry)}
    (less : before head.1 place = true) :
    insert place entry (head :: rest) = head :: insert place entry rest := by
  have ne : head.1 ≠ place := fun same => before_irrefl _ (same ▸ less)
  rw [insert, if_neg ne, if_neg fun back => before_irrefl _ (before_trans less back)]

theorem insert_comm_of_before (less : before place other = true) (first second : Entry)
    (entries : List (List String × Entry)) :
    insert other second (insert place first entries) =
      insert place first (insert other second entries) := by
  induction entries with
  | nil =>
    have front : insert other second [(place, first)] = (place, first) :: insert other second [] :=
      insert_after less
    have back : insert place first [(other, second)] = (place, first) :: [(other, second)] :=
      insert_before less
    exact front.trans back.symm
  | cons head rest inductionHypothesis =>
    by_cases same : head.1 = place
    · have replaced (others : List (List String × Entry)) :
          insert place first (head :: others) = (place, first) :: others := by
        rw [insert, if_pos same]
      have behind : before head.1 other = true := by rwa [same]
      rw [insert_after behind, replaced, replaced]
      exact insert_after less
    · by_cases front : before place head.1 = true
      · rw [insert_before front, insert_after less]
        symm
        rw [insert]
        split
        · exact insert_before less
        · split
          · exact insert_before less
          · exact insert_before front
      · have behind := before_of_not_before (Ne.symm same) front
        rw [insert_after behind, insert_after (before_trans behind less),
          insert_after (before_trans behind less), insert_after behind, inductionHypothesis]

/-- Entries for two places may be put in any order. -/
theorem insert_comm (ne : place ≠ other) (first second : Entry)
    (entries : List (List String × Entry)) :
    insert other second (insert place first entries) =
      insert place first (insert other second entries) := by
  by_cases less : before place other = true
  · exact insert_comm_of_before less first second entries
  · exact (insert_comm_of_before (before_of_not_before ne less) second first entries).symm

end Insert

/-! ### Trees in order -/

variable {tree : FileTree} {place : List String} {entry : Entry}

theorem put_comm (tree : FileTree) {other : List String} (ne : place ≠ other)
    (first second : Entry) :
    (tree.put place first).put other second = (tree.put other second).put place first :=
  congrArg (fun entries => { tree with entries := entries })
    (insert_comm ne first second tree.entries)

/-- Every entry is before those that follow it. -/
def Ordered (tree : FileTree) : Prop :=
  tree.entries.Pairwise fun first second => before first.1 second.1 = true

instance (tree : FileTree) : Decidable tree.Ordered :=
  inferInstanceAs (Decidable (List.Pairwise _ _))

theorem Ordered.put (ordered : tree.Ordered) (place : List String) (entry : Entry) :
    (tree.put place entry).Ordered := by
  obtain ⟨entries, refusals⟩ := tree
  simp only [Ordered, FileTree.put] at ordered ⊢
  induction entries with
  | nil => exact List.pairwise_singleton _ _
  | cons head rest inductionHypothesis =>
    obtain ⟨below, further⟩ := List.pairwise_cons.mp ordered
    rw [insert]
    split
    · next same => exact List.pairwise_cons.mpr ⟨same ▸ below, further⟩
    · next ne =>
      split
      · next less =>
        refine List.pairwise_cons.mpr ⟨fun other member => ?_, ordered⟩
        rcases List.mem_cons.mp member with rfl | inRest
        · exact less
        · exact before_trans less (below other inRest)
      · next notLess =>
        refine List.pairwise_cons.mpr ⟨fun other member => ?_, inductionHypothesis further⟩
        rcases eq_or_mem_of_mem_insert member with rfl | inRest
        · exact before_of_not_before (Ne.symm ne) notLess
        · exact below other inRest

theorem Ordered.erase (ordered : tree.Ordered) (place : List String) : (tree.erase place).Ordered :=
  List.Pairwise.filter _ ordered

/-- The entries of a tree in order are those that are found in it. -/
theorem Ordered.mem_entries (ordered : tree.Ordered) (named : place ≠ []) :
    (place, entry) ∈ tree.entries ↔ tree.get? place = some entry := by
  rw [get?, if_neg (by simpa using named)]
  obtain ⟨entries, refusals⟩ := tree
  simp only [Ordered] at ordered ⊢
  induction entries with
  | nil => simp
  | cons head rest inductionHypothesis =>
    obtain ⟨below, further⟩ := List.pairwise_cons.mp ordered
    rw [List.mem_cons, inductionHypothesis further, List.find?_cons]
    by_cases same : head.1 = place
    · -- The head is the only entry for its place, since it is before all others.
      have absent : rest.find? (fun found => found.1 == place) = none := by
        rw [List.find?_eq_none]
        intro other member isPlace
        have less := below other member
        rw [same, eq_of_beq isPlace] at less
        exact before_irrefl _ less
      simp only [absent, same, beq_self_eq_true, Option.map_none, Option.map_some]
      constructor
      · rintro (rfl | absurd)
        · rfl
        · cases absurd
      · intro isEntry
        exact .inl (Prod.ext same.symm (Option.some.inj isEntry).symm)
    · have skips : (head.1 == place) = false := by simpa using same
      rw [skips]
      refine or_iff_right fun isHead => ?_
      exact same (congrArg Prod.fst isHead).symm

/-- What is found below a place. -/
theorem Ordered.mem_below (ordered : tree.Ordered) {names : List String} :
    (names, entry) ∈ tree.below place ↔
      names ≠ [] ∧ tree.get? (place ++ names) = some entry := by
  rw [below, List.mem_filterMap]
  constructor
  · rintro ⟨⟨key, found⟩, member, isBelow⟩
    simp only [Option.ite_none_right_eq_some, Bool.and_eq_true, bne_iff_ne, ne_eq,
      Option.some.injEq, Prod.mk.injEq] at isBelow
    obtain ⟨⟨isPrefix, ne⟩, rfl, rfl⟩ := isBelow
    obtain ⟨rest, rfl⟩ := List.isPrefixOf_iff_prefix.mp isPrefix
    rw [List.drop_left]
    have named : rest ≠ [] := by simpa using ne
    exact ⟨named, (ordered.mem_entries (by simp [named])).mp member⟩
  · rintro ⟨named, found⟩
    refine ⟨(place ++ names, entry), (ordered.mem_entries (by simp [named])).mpr found, ?_⟩
    simp [List.isPrefixOf_iff_prefix, named]

end TagMigration.FileTree
