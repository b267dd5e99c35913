/-
What a recorder hands over. A recorder is a set: whatever the order of the probes, and
however often each of them is run, it holds the usages that were probed with a name the registry
knows. Flushed, it confirms in a template the names that were noted down under any spelling
of the template's identity.
-/
import TagMigration.Telemetry.Recorder

namespace TagMigration

/-! ### Aggregates -/

theorem Aggregate.mem_record {aggregate : Aggregate} {identity name : String} {usage : Usage} :
    usage ∈ (aggregate.record identity name).usages ↔
      usage = (Identity.normalise identity, name) ∨ usage ∈ aggregate.usages :=
  Usage.mem_insert

theorem Aggregate.mem_confirmedFor {aggregate : Aggregate} {identity name : String} :
    name ∈ aggregate.confirmedFor identity ↔
      (Identity.normalise identity, name) ∈ aggregate.usages := by
  simp only [confirmedFor, List.mem_map, List.mem_filter, beq_iff_eq]
  constructor
  · rintro ⟨⟨spelled, found⟩, ⟨member, rfl⟩, rfl⟩
    exact member
  · intro member
    exact ⟨_, ⟨member, rfl⟩, rfl⟩

namespace Recorder

/-! ### Snapshots -/

/-- An aggregate that takes over usages holds what it held and their normal forms. -/
theorem mem_foldl_record (usages : List Usage) (aggregate : Aggregate) {usage : Usage} :
    usage ∈ (usages.foldl (fun aggregate (identity, name) => aggregate.record identity name)
        aggregate).usages ↔
      usage ∈ aggregate.usages ∨
        ∃ noted ∈ usages, usage = (Identity.normalise noted.1, noted.2) := by
  induction usages generalizing aggregate with
  | nil => simp
  | cons noted rest inductionHypothesis =>
    rw [List.foldl_cons, inductionHypothesis, Aggregate.mem_record]
    simp only [List.mem_cons, exists_eq_or_imp]
    rw [or_comm (a := usage = _), or_assoc]

/-- A snapshot confirms the names that were noted under a spelling of the identity. -/
theorem mem_confirmedFor_snapshot {recorder : Recorder} {identity name : String} :
    name ∈ recorder.snapshot.confirmedFor identity ↔
      ∃ spelled, (spelled, name) ∈ recorder.usages ∧
        Identity.normalise spelled = Identity.normalise identity := by
  rw [Aggregate.mem_confirmedFor, snapshot, mem_foldl_record]
  constructor
  · rintro (absurd | ⟨⟨spelled, found⟩, member, equal⟩)
    · cases absurd
    · obtain ⟨same, rfl⟩ := Prod.mk.inj equal
      exact ⟨spelled, member, same.symm⟩
  · rintro ⟨spelled, member, same⟩
    exact .inr ⟨(spelled, name), member, by rw [same]⟩

/-! ### Runs of probes -/

/-- The recorder after probes with the given names and identities, one after the other. -/
def probeAll (recorder : Recorder) (registry : List String) : List (String × String) → Recorder
  | [] => recorder
  | (name, identity) :: calls =>
    (recorder.probe registry name identity).2.probeAll registry calls

theorem mem_probe {recorder : Recorder} {registry : List String} {name identity : String}
    {usage : Usage} :
    usage ∈ (recorder.probe registry name identity).2.usages ↔
      usage ∈ recorder.usages ∨ name ∈ registry ∧ usage = (identity, name) := by
  unfold probe
  split
  · next known =>
    have member : name ∈ registry := List.elem_iff.mp known
    simp only [record, Usage.mem_insert, member, true_and]
    exact or_comm
  · next unknown =>
    have absent : name ∉ registry := fun member => unknown (List.elem_iff.mpr member)
    simp only [absent, false_and, or_false]

/-- Neither the order nor the number of the probes matters. -/
theorem mem_probeAll {registry : List String} {calls : List (String × String)}
    {recorder : Recorder} {identity name : String} :
    (identity, name) ∈ (recorder.probeAll registry calls).usages ↔
      (identity, name) ∈ recorder.usages ∨ name ∈ registry ∧ (name, identity) ∈ calls := by
  induction calls generalizing recorder with
  | nil => simp [probeAll]
  | cons call rest inductionHypothesis =>
    obtain ⟨asked, spelled⟩ := call
    rw [probeAll, inductionHypothesis, mem_probe, or_assoc]
    refine or_congr_right ?_
    constructor
    · rintro (⟨known, equal⟩ | ⟨known, member⟩)
      · obtain ⟨rfl, rfl⟩ := Prod.mk.inj equal
        exact ⟨known, List.mem_cons_self⟩
      · exact ⟨known, List.mem_cons_of_mem _ member⟩
    · rintro ⟨known, member⟩
      rcases List.mem_cons.mp member with equal | more
      · obtain ⟨rfl, rfl⟩ := Prod.mk.inj equal
        exact .inl ⟨known, rfl⟩
      · exact .inr ⟨known, more⟩

/-- The names that probes confirm in a template: those that the registry knows and that were asked
about under a spelling of the template's identity. -/
theorem mem_confirmedFor_probeAll {registry : List String} {calls : List (String × String)}
    {identity name : String} :
    name ∈ ((empty.probeAll registry calls).flush.1).confirmedFor identity ↔
      name ∈ registry ∧ ∃ spelled, (name, spelled) ∈ calls ∧
        Identity.normalise spelled = Identity.normalise identity := by
  rw [flush, mem_confirmedFor_snapshot]
  simp only [mem_probeAll, show empty.usages = [] from rfl, List.not_mem_nil, false_or]
  constructor
  · rintro ⟨spelled, ⟨known, member⟩, same⟩
    exact ⟨known, spelled, member, same⟩
  · rintro ⟨known, spelled, member, same⟩
    exact ⟨spelled, ⟨known, member⟩, same⟩

end Recorder

end TagMigration
