/-
Aggregates as sets. An aggregate keeps its usages in increasing order, with identities in
normal form, and every operation keeps it so. An increasing list is determined by its members, so
two aggregates that hold the same usages are equal, whatever was done to get there; and all
that has to be said about an operation is which usages are in its result.
-/
import TagMigration.Proofs.Telemetry.Recorded

namespace TagMigration

/-! ### Normal forms -/

namespace Identity

theorem slashed_slashed (char : Char) : slashed (slashed char) = slashed char := by
  unfold slashed
  split
  · rfl
  · rfl

theorem dropHere_dropHere (text : List Char) : dropHere (dropHere text) = dropHere text := by
  fun_induction dropHere text with
  | case1 rest inductionHypothesis => exact inductionHypothesis
  | case2 text other =>
    rw [dropHere]
    exact other

/-- What is left of a text without backslashes has none either. -/
theorem map_slashed_dropHere (text : List Char) :
    (dropHere (text.map slashed)).map slashed = dropHere (text.map slashed) := by
  have fixed : (text.map slashed).map slashed = text.map slashed := by
    simp only [List.map_map, Function.comp_def, slashed_slashed]
  revert fixed
  generalize text.map slashed = plain
  intro fixed
  fun_induction dropHere plain with
  | case1 rest inductionHypothesis =>
    simp only [List.map_cons, List.cons.injEq] at fixed
    exact inductionHypothesis fixed.2.2
  | case2 text other => exact fixed

/-- A normal form is its own normal form. -/
theorem normalise_normalise (identity : String) :
    normalise (normalise identity) = normalise identity := by
  simp only [normalise, String.toList_ofList, map_slashed_dropHere, dropHere_dropHere]

/-- A normal form has no backslash. -/
theorem plain_normalise (identity : String) : '\\' ∉ (normalise identity).toList := by
  rw [normalise, String.toList_ofList]
  intro member
  rw [← map_slashed_dropHere] at member
  obtain ⟨char, -, isBackslash⟩ := List.mem_map.mp member
  rw [slashed] at isBackslash
  split at isBackslash
  · cases isBackslash
  · next notBackslash => exact notBackslash isBackslash

theorem dropHere_ne (text rest : List Char) : dropHere text ≠ '.' :: '/' :: rest := by
  fun_induction dropHere text with
  | case1 rest inductionHypothesis => exact inductionHypothesis
  | case2 text other => exact other rest

/-- The identities in normal form are those without backslashes and without a leading `./`. -/
theorem normalise_eq_self_iff {identity : String} : normalise identity = identity ↔
    '\\' ∉ identity.toList ∧ ∀ rest, identity.toList ≠ '.' :: '/' :: rest := by
  constructor
  · intro fixed
    refine ⟨fixed ▸ plain_normalise identity, fun rest here => ?_⟩
    rw [← fixed, normalise, String.toList_ofList] at here
    exact dropHere_ne _ rest here
  · rintro ⟨plain, notHere⟩
    have same : identity.toList.map slashed = identity.toList := by
      refine (List.map_congr_left fun char member => if_neg ?_).trans (List.map_id _)
      rintro rfl
      exact plain member
    rw [normalise, same, dropHere, String.ofList_toList]
    exact notHere

end Identity

/-! ### Increasing lists of usages -/

namespace Usage

theorem before_iff {first second : Usage} :
    before first second = true ↔
      first.1 < second.1 ∨ first.1 = second.1 ∧ first.2 < second.2 := by
  simp [before]

theorem before_irrefl (usage : Usage) : ¬before usage usage = true := by
  simp [before_iff]

theorem before_trans {first second third : Usage} (left : before first second = true)
    (right : before second third = true) : before first third = true := by
  rw [before_iff] at left right ⊢
  rcases left with left | ⟨same, left⟩ <;> rcases right with right | ⟨equal, right⟩
  · exact .inl (String.lt_trans left right)
  · exact .inl (equal ▸ left)
  · exact .inl (same ▸ right)
  · exact .inr ⟨same.trans equal, String.lt_trans left right⟩

/-- Of two usages one is before the other. -/
theorem before_of_not_before {first second : Usage} (ne : first ≠ second)
    (not : ¬before first second = true) : before second first = true := by
  simp only [before_iff, not_or, not_and, String.not_lt] at not ⊢
  obtain ⟨notLess, further⟩ := not
  by_cases same : first.1 = second.1
  · refine .inr ⟨same.symm, String.not_le.mp fun less => ne (Prod.ext same ?_)⟩
    exact String.le_antisymm less (further same)
  · exact .inl (String.not_le.mp fun less => same (String.le_antisymm less notLess))

/-- Every usage of the list is before those that follow it. -/
def Increasing (usages : List Usage) : Prop :=
  usages.Pairwise fun first second => before first second = true

theorem increasing_insert {usage : Usage} {usages : List Usage} (increasing : Increasing usages) :
    Increasing (insert usage usages) := by
  induction usages with
  | nil => exact List.pairwise_singleton _ usage
  | cons head rest inductionHypothesis =>
    obtain ⟨below, further⟩ := List.pairwise_cons.mp increasing
    rw [insert]
    split
    · exact increasing
    · next differs =>
      have ne : usage ≠ head := by simpa using differs
      split
      · next less =>
        refine List.pairwise_cons.mpr ⟨fun other member => ?_, increasing⟩
        rcases List.mem_cons.mp member with rfl | inRest
        · exact less
        · exact before_trans less (below other inRest)
      · next notLess =>
        refine List.pairwise_cons.mpr ⟨fun other member => ?_, inductionHypothesis further⟩
        rcases mem_insert.mp member with rfl | inRest
        · exact before_of_not_before ne notLess
        · exact below other inRest

/-- An increasing list is determined by its members. -/
theorem Increasing.eq_of_mem_iff {first second : List Usage} (increasing : Increasing first)
    (other : Increasing second) (same : ∀ usage, usage ∈ first ↔ usage ∈ second) :
    first = second := by
  have nodup {usages : List Usage} (increasing : Increasing usages) : usages.Nodup := by
    refine List.Pairwise.imp (fun {left right} less equal => ?_) increasing
    exact before_irrefl right (equal ▸ less)
  have perm := (List.perm_ext_iff_of_nodup (nodup increasing) (nodup other)).mpr same
  refine List.Perm.eq_of_pairwise (fun _ _ _ _ left right => ?_) increasing other perm
  exact absurd (before_trans left right) (before_irrefl _)

/-- A usage under the normal form of its identity. -/
def normal (usage : Usage) : Usage :=
  (Identity.normalise usage.1, usage.2)

end Usage

/-- The usages that a datalet speaks of, with identities as it spells them. -/
def Datalet.usages (datalet : Datalet) : List Usage :=
  datalet.flatMap fun (identity, names) => names.map fun name => (identity, name)

/-! ### Operations on aggregates -/

namespace Aggregate

/-- An aggregate is what its operations expect of it: increasing usages, in normal form. -/
structure Sound (aggregate : Aggregate) : Prop where
  increasing : Usage.Increasing aggregate.usages
  normal : ∀ usage ∈ aggregate.usages, usage.normal = usage

/-- Sound aggregates that hold the same usages are equal. -/
theorem Sound.eq_of_mem_iff {first second : Aggregate} (sound : first.Sound)
    (other : second.Sound) (same : ∀ usage, usage ∈ first.usages ↔ usage ∈ second.usages) :
    first = second := by
  have usages := sound.increasing.eq_of_mem_iff other.increasing same
  cases first
  cases second
  exact congrArg Aggregate.mk usages

theorem sound_empty : empty.Sound :=
  ⟨List.Pairwise.nil, nofun⟩

theorem Sound.record {aggregate : Aggregate} (sound : aggregate.Sound) (identity name : String) :
    (aggregate.record identity name).Sound where
  increasing := Usage.increasing_insert sound.increasing
  normal usage member := by
    rcases mem_record.mp member with rfl | there
    · exact Prod.ext (Identity.normalise_normalise identity) rfl
    · exact sound.normal usage there

/-- Confirming one usage after another. -/
theorem sound_foldl_record {aggregate : Aggregate} (sound : aggregate.Sound)
    (usages : List Usage) :
    (usages.foldl (fun aggregate (identity, name) => aggregate.record identity name)
      aggregate).Sound := by
  induction usages generalizing aggregate with
  | nil => exact sound
  | cons usage rest inductionHypothesis =>
    exact inductionHypothesis (sound.record usage.1 usage.2)

/-- Confirming a datalet is confirming its usages one after another. -/
theorem addDatalet_eq (aggregate : Aggregate) (datalet : Datalet) :
    aggregate.addDatalet datalet = datalet.usages.foldl
      (fun aggregate (identity, name) => aggregate.record identity name) aggregate := by
  rw [addDatalet, Datalet.usages, List.foldl_flatMap]
  simp only [List.foldl_map]

theorem Sound.addDatalet {aggregate : Aggregate} (sound : aggregate.Sound) (datalet : Datalet) :
    (aggregate.addDatalet datalet).Sound := by
  rw [addDatalet_eq]
  exact sound_foldl_record sound _

theorem mem_addDatalet {aggregate : Aggregate} {datalet : Datalet} {usage : Usage} :
    usage ∈ (aggregate.addDatalet datalet).usages ↔
      usage ∈ aggregate.usages ∨ ∃ supplied ∈ datalet.usages, usage = supplied.normal := by
  rw [addDatalet_eq, Recorder.mem_foldl_record]
  rfl

/-- Usages inserted one after another. -/
theorem mem_foldl_insert (more usages : List Usage) {usage : Usage} :
    usage ∈ more.foldl (fun usages usage => Usage.insert usage usages) usages ↔
      usage ∈ usages ∨ usage ∈ more := by
  induction more generalizing usages with
  | nil => simp
  | cons first rest inductionHypothesis =>
    rw [List.foldl_cons, inductionHypothesis, Usage.mem_insert, List.mem_cons,
      or_comm (a := usage = first), or_assoc]

theorem mem_merge {aggregate other : Aggregate} {usage : Usage} :
    usage ∈ (aggregate.merge other).usages ↔
      usage ∈ aggregate.usages ∨ usage ∈ other.usages :=
  mem_foldl_insert other.usages aggregate.usages

theorem Sound.merge {aggregate other : Aggregate} (sound : aggregate.Sound)
    (otherSound : other.Sound) : (aggregate.merge other).Sound where
  increasing := by
    have inserted (more usages : List Usage) (increasing : Usage.Increasing usages) :
        Usage.Increasing (more.foldl (fun usages usage => Usage.insert usage usages) usages) := by
      induction more generalizing usages with
      | nil => exact increasing
      | cons first rest inductionHypothesis =>
        exact inductionHypothesis _ (Usage.increasing_insert increasing)
    exact inserted other.usages aggregate.usages sound.increasing
  normal usage member := by
    rcases mem_merge.mp member with left | right
    · exact sound.normal usage left
    · exact otherSound.normal usage right

/-! ### Names by template -/

theorem mem_identitiesOf (usages : List Usage) {identity : String} :
    identity ∈ identitiesOf usages ↔ ∃ name, (identity, name) ∈ usages := by
  fun_induction identitiesOf usages with
  | case1 => simp
  | case2 usage =>
    obtain ⟨found, name⟩ := usage
    simp
  | case3 first second rest same inductionHypothesis =>
    -- The identity of the first usage is also that of the second, so it is not lost.
    rw [inductionHypothesis]
    constructor
    · rintro ⟨name, member⟩
      exact ⟨name, List.mem_cons_of_mem _ member⟩
    · rintro ⟨name, member⟩
      rcases List.mem_cons.mp member with rfl | inRest
      · exact ⟨second.2, by rw [show identity = second.1 from eq_of_beq same]; simp⟩
      · exact ⟨name, inRest⟩
  | case4 first second rest differs inductionHypothesis =>
    rw [List.mem_cons, inductionHypothesis]
    obtain ⟨found, name⟩ := first
    simp only [List.mem_cons, Prod.mk.injEq, exists_or, exists_and_left, exists_eq, and_true]

/-- A sound aggregate stores names under normal forms only, and under each of them the names that
it confirms there, of which there are some. -/
theorem Sound.mem_toDatalet {aggregate : Aggregate} (sound : aggregate.Sound) {identity : String}
    {names : List String} (member : (identity, names) ∈ aggregate.toDatalet) :
    Identity.normalise identity = identity ∧ names = aggregate.confirmedFor identity ∧
      names ≠ [] := by
  obtain ⟨stored, isStored, equal⟩ := List.mem_map.mp member
  obtain ⟨rfl, rfl⟩ := Prod.mk.inj equal
  obtain ⟨name, held⟩ := (mem_identitiesOf _).mp isStored
  have fixed : Identity.normalise stored = stored := congrArg Prod.fst (sound.normal _ held)
  refine ⟨fixed, by simp only [confirmedFor, fixed], List.ne_nil_of_mem (a := name) ?_⟩
  exact List.mem_map.mpr ⟨_, List.mem_filter.mpr ⟨held, beq_self_eq_true stored⟩, rfl⟩

end Aggregate

end TagMigration
