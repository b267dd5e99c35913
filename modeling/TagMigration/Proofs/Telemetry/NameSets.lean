/-
An aggregate stands for a map of sets. Each operation on aggregates does to the map what the same
operation on maps does, so any run of them does. Therefore what holds of the usages of an aggregate
holds of the map: no identity in it has an empty set, although a map could hold one.
-/
import Mathlib.Data.Finset.Lattice.Lemmas
import TagMigration.Proofs.Telemetry.Supplied
import TagMigration.Telemetry.NameSets

namespace TagMigration

namespace Aggregate

/-! ### Identities in order -/

/-- The identities of increasing usages are increasing, so each of them is listed once. -/
theorem pairwise_identitiesOf {usages : List Usage} (increasing : Usage.Increasing usages) :
    (identitiesOf usages).Pairwise (· < ·) := by
  fun_induction identitiesOf usages with
  | case1 => exact .nil
  | case2 usage => exact List.pairwise_singleton _ _
  | case3 first second rest same inductionHypothesis =>
    exact inductionHypothesis increasing.of_cons
  | case4 first second rest differs inductionHypothesis =>
    refine List.pairwise_cons.mpr ⟨fun identity member => ?_, inductionHypothesis increasing.of_cons⟩
    obtain ⟨name, held⟩ := (mem_identitiesOf _).mp member
    obtain ⟨below, further⟩ := List.pairwise_cons.mp increasing
    have less : first.1 < second.1 := by
      rcases Usage.before_iff.mp (below second List.mem_cons_self) with less | ⟨same, -⟩
      · exact less
      · exact absurd (beq_iff_eq.mpr same) differs
    rcases List.mem_cons.mp held with rfl | inRest
    · exact less
    · rcases Usage.before_iff.mp ((List.pairwise_cons.mp further).1 _ inRest) with more | ⟨same, -⟩
      · exact String.lt_trans less more
      · exact lt_of_lt_of_eq less same

/-! ### The map of an aggregate -/

/-- The names of an aggregate under an identity. -/
def namesUnder (aggregate : Aggregate) (identity : String) : Finset String :=
  ((aggregate.usages.filter fun usage => usage.1 == identity).map (·.2)).toFinset

variable {aggregate : Aggregate}

theorem mem_namesUnder {identity name : String} :
    name ∈ aggregate.namesUnder identity ↔ (identity, name) ∈ aggregate.usages := by
  simp [namesUnder]

theorem lookup_map {α : Type} (value : String → α) (keys : List String) (key : String) :
    (keys.map fun key => (key, value key)).lookup key =
      if key ∈ keys then some (value key) else none := by
  induction keys with
  | nil => rfl
  | cons first rest inductionHypothesis =>
    rw [List.map_cons, List.lookup_cons]
    cases same : key == first with
    | true => simp [eq_of_beq same]
    | false => simp [beq_eq_false_iff_ne.mp same, inductionHypothesis]

theorem mem_identities {identity : String} :
    identity ∈ aggregate.identities ↔ (aggregate.namesUnder identity).Nonempty := by
  rw [identities, mem_identitiesOf]
  exact exists_congr fun name => mem_namesUnder.symm

/-- An identity is in the map if the aggregate has a name under it. -/
theorem sets_nameSets (aggregate : Aggregate) (identity : String) :
    aggregate.nameSets.sets identity =
      if aggregate.namesUnder identity = ∅ then none else some (aggregate.namesUnder identity) := by
  show (aggregate.toDatalet.lookup identity).map List.toFinset = _
  rw [toDatalet, lookup_map]
  by_cases unused : aggregate.namesUnder identity = ∅
  · rw [if_pos unused, if_neg fun isKey => (mem_identities.mp isKey).ne_empty unused]
    rfl
  · rw [if_neg unused, if_pos (mem_identities.mpr (Finset.nonempty_iff_ne_empty.mpr unused))]
    rfl

theorem sets_nameSets_eq_some {identity : String} {names : Finset String} :
    aggregate.nameSets.sets identity = some names ↔
      aggregate.namesUnder identity = names ∧ names.Nonempty := by
  rw [sets_nameSets, Option.ite_none_left_eq_some, Option.some.injEq, and_comm,
    ← ne_eq, ← Finset.nonempty_iff_ne_empty]
  exact and_congr_right fun equal => by rw [equal]

theorem names_nameSets (aggregate : Aggregate) (identity : String) :
    aggregate.nameSets.names identity = aggregate.namesUnder identity := by
  rw [NameSets.names, sets_nameSets]
  split
  · next unused => exact unused.symm
  · rfl

theorem nameSets_empty : empty.nameSets = .empty := rfl

/-! ### Operations -/

theorem nameSets_record (aggregate : Aggregate) (identity name : String) :
    (aggregate.record identity name).nameSets = aggregate.nameSets.record identity name := by
  have under (key : String) : (aggregate.record identity name).namesUnder key =
      if key = Identity.normalise identity then insert name (aggregate.namesUnder key)
      else aggregate.namesUnder key := by
    ext other
    rw [mem_namesUnder, mem_record, Prod.mk.injEq]
    split <;> simp_all [mem_namesUnder]
  refine NameSets.ext (funext fun key => ?_)
  show _ = if key = Identity.normalise identity then _ else _
  rw [sets_nameSets, under, names_nameSets]
  split
  · rw [if_neg (Finset.insert_ne_empty _ _)]
  · rw [sets_nameSets]

theorem nameSets_merge (aggregate other : Aggregate) :
    (aggregate.merge other).nameSets = aggregate.nameSets.merge other.nameSets := by
  have under (key : String) : (aggregate.merge other).namesUnder key =
      aggregate.namesUnder key ∪ other.namesUnder key := by
    ext name
    rw [Finset.mem_union, mem_namesUnder, mem_namesUnder, mem_namesUnder, mem_merge]
  refine NameSets.ext (funext fun key => ?_)
  rw [sets_nameSets, under]
  simp only [NameSets.merge, names_nameSets, sets_nameSets]
  by_cases unused : other.namesUnder key = ∅
  · rw [if_pos unused, unused, Finset.union_empty]
  · rw [if_neg unused, if_neg fun bothUnused => unused (Finset.union_eq_empty.mp bothUnused).2]

theorem nameSets_addDatalet (aggregate : Aggregate) (datalet : Datalet) :
    (aggregate.addDatalet datalet).nameSets = aggregate.nameSets.addDatalet datalet := by
  have recorded (aggregate : Aggregate) (identity : String) (names : List String) :
      (names.foldl (fun aggregate name => aggregate.record identity name) aggregate).nameSets =
        names.foldl (fun map name => map.record identity name) aggregate.nameSets :=
    (List.foldl_hom nameSets fun aggregate name =>
      (nameSets_record aggregate identity name).symm).symm
  exact (List.foldl_hom nameSets fun aggregate entry =>
    (recorded aggregate entry.1 entry.2).symm).symm

end Aggregate

/-! ### Feeds -/

namespace Feed

mutual

/-- The map after a feed. -/
def enter (map : NameSets) : Feed → NameSets
  | .record identity name => map.record identity name
  | .report datalet => map.addDatalet datalet
  | .load text =>
    match Datalet.ofText text with
    | .ok datalets => map.merge (datalets.foldl NameSets.addDatalet .empty)
    | .error _ => map
  | .aggregate feeds => map.merge (enterAll .empty feeds)

/-- The map after feeds, one after the other. -/
def enterAll (map : NameSets) : List Feed → NameSets
  | [] => map
  | feed :: rest => enterAll (feed.enter map) rest

end

mutual

theorem nameSets_apply (aggregate : Aggregate) : ∀ feed : Feed,
    (feed.apply aggregate).nameSets = feed.enter aggregate.nameSets
  | .record identity name => aggregate.nameSets_record identity name
  | .report datalet => aggregate.nameSets_addDatalet datalet
  | .load text => by
    rw [apply, enter, Aggregate.ofText_eq]
    cases Datalet.ofText text with
    | error => rfl
    | ok datalets =>
      have loaded : (Aggregate.ofDatalets datalets).nameSets =
          datalets.foldl NameSets.addDatalet .empty :=
        (List.foldl_hom Aggregate.nameSets fun aggregate datalet =>
          (aggregate.nameSets_addDatalet datalet).symm).symm
      exact (aggregate.nameSets_merge _).trans (congrArg aggregate.nameSets.merge loaded)
  | .aggregate feeds => by
    rw [apply, enter, aggregate.nameSets_merge, nameSets_applyAll .empty feeds]
    rfl

/-- Feeds do to the map of an aggregate what they do to the aggregate. -/
theorem nameSets_applyAll (aggregate : Aggregate) : ∀ feeds : List Feed,
    (applyAll aggregate feeds).nameSets = enterAll aggregate.nameSets feeds
  | [] => rfl
  | feed :: rest => by
    rw [applyAll, enterAll, nameSets_applyAll _ rest, nameSets_apply aggregate feed]

end

/-- The aggregate that is built stands for the map that is built. Every set in that map has a name,
and stands under a normal form; its identities are those of the aggregate, each listed once, and so
are the names that it confirms in a template. -/
theorem nameSets_build (feeds : List Feed) :
    (build feeds).nameSets = enterAll .empty feeds ∧
    (∀ identity names, (enterAll .empty feeds).sets identity = some names →
      Identity.normalise identity = identity ∧ names.Nonempty) ∧
    (∀ identity, identity ∈ (build feeds).identities ↔
      ∃ names, (enterAll .empty feeds).sets identity = some names) ∧
    (build feeds).identities.Pairwise (· < ·) ∧
    ∀ identity, (enterAll .empty feeds).confirmedFor identity =
      ((build feeds).confirmedFor identity).toFinset := by
  have sound : (build feeds).Sound := sound_applyAll Aggregate.sound_empty feeds
  have stands : (build feeds).nameSets = enterAll .empty feeds :=
    (nameSets_applyAll .empty feeds).trans (by rw [Aggregate.nameSets_empty])
  rw [← stands]
  refine ⟨rfl, fun identity names found => ?_, fun identity => ?_,
    Aggregate.pairwise_identitiesOf sound.increasing, fun identity => ?_⟩
  · obtain ⟨rfl, name, held⟩ := Aggregate.sets_nameSets_eq_some.mp found
    have normal := sound.normal _ (Aggregate.mem_namesUnder.mp held)
    exact ⟨congrArg Prod.fst normal, name, held⟩
  · simp only [Aggregate.mem_identities, Aggregate.sets_nameSets_eq_some, exists_eq_left']
  · rw [NameSets.confirmedFor, Aggregate.names_nameSets]
    rfl

end Feed

end TagMigration
