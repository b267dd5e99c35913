/-
A recorder at work. Probes run, names are noted down, and from time to time somebody looks at what
has been noted or takes it away. A recorder keeps identities as they are spelled and an aggregate
keeps their normal forms, so what is one usage there may be several notes here, handed over
in several flushes. Whatever the order of the requests, what was taken away and what is left
make up the aggregate in which every note would have been recorded at once.
-/
import TagMigration.Proofs.Telemetry.UsageSet

namespace TagMigration

namespace Recorder

/-! ### Requests and answers -/

/-- What can be asked of a recorder. -/
inductive Request where
  | probe (name identity : String)
  | record (identity name : String)
  | snapshot
  | flush

/-- What a recorder answers: whether a name is known, that a note was taken, or what has been
noted. -/
inductive Answer where
  | known (isKnown : Bool)
  | noted
  | telemetry (aggregate : Aggregate)

/-- The answer to a request, and the recorder after it. -/
def answer (registry : List String) (recorder : Recorder) : Request → Answer × Recorder
  | .probe name identity =>
    let (isKnown, after) := recorder.probe registry name identity
    (.known isKnown, after)
  | .record identity name => (.noted, recorder.record identity name)
  | .snapshot => (.telemetry recorder.snapshot, recorder)
  | .flush =>
    let (aggregate, after) := recorder.flush
    (.telemetry aggregate, after)

/-- What was asked and answered, in order, and the recorder at the end. -/
def run (registry : List String) (recorder : Recorder) :
    List Request → List (Request × Answer) × Recorder
  | [] => ([], recorder)
  | request :: rest =>
    let (answer, after) := recorder.answer registry request
    let (transcript, last) := after.run registry rest
    ((request, answer) :: transcript, last)

/-- What a flush has handed over. -/
def flushed? : Request × Answer → Option Aggregate
  | (.flush, .telemetry aggregate) => some aggregate
  | _ => none

/-- The usages that a request brings: that of a note, and that of a probe for a known name. -/
def Request.usages (registry : List String) : Request → List Usage
  | .probe name identity => if registry.contains name then [(identity, name)] else []
  | .record identity name => [(identity, name)]
  | .snapshot => []
  | .flush => []

/-- The aggregate in which all that the requests bring is recorded, without a recorder. -/
def directly (registry : List String) (requests : List Request) : Aggregate :=
  (requests.flatMap (Request.usages registry)).foldl
    (fun aggregate (identity, name) => aggregate.record identity name) .empty

section Run

variable {registry : List String} {recorder : Recorder}

theorem run_append (first second : List Request) :
    recorder.run registry (first ++ second) =
      ((recorder.run registry first).1 ++ ((recorder.run registry first).2.run registry second).1,
        ((recorder.run registry first).2.run registry second).2) := by
  induction first generalizing recorder with
  | nil => rfl
  | cons request rest inductionHypothesis =>
    simp only [List.cons_append, run, inductionHypothesis]

theorem map_run (requests : List Request) :
    (recorder.run registry requests).1.map Prod.fst = requests := by
  induction requests generalizing recorder with
  | nil => rfl
  | cons request rest inductionHypothesis =>
    rw [run, List.map_cons, inductionHypothesis]

/-- Every answer is that of the recorder at some point. -/
theorem exists_of_mem_run {requests : List Request} {entry : Request × Answer}
    (member : entry ∈ (recorder.run registry requests).1) :
    ∃ point : Recorder, entry.2 = (point.answer registry entry.1).1 := by
  induction requests generalizing recorder with
  | nil => cases member
  | cons request rest inductionHypothesis =>
    rcases List.mem_cons.mp member with rfl | further
    · exact ⟨recorder, rfl⟩
    · exact inductionHypothesis further

theorem probe_fst (name identity : String) :
    (recorder.probe registry name identity).1 = decide (name ∈ registry) := by
  unfold probe
  split <;> simp_all

/-! ### Nothing is lost and nothing is made up -/

theorem sound_snapshot (recorder : Recorder) : recorder.snapshot.Sound :=
  Aggregate.sound_foldl_record Aggregate.sound_empty _

theorem mem_snapshot {usage : Usage} :
    usage ∈ recorder.snapshot.usages ↔ ∃ noted ∈ recorder.usages, usage = noted.normal := by
  rw [snapshot, mem_foldl_record]
  exact or_iff_right List.not_mem_nil

/-- The aggregates that a run hands over, the last of them being what is left at the end. -/
def pieces (registry : List String) (recorder : Recorder) (requests : List Request) :
    List Aggregate :=
  (recorder.run registry requests).1.filterMap flushed? ++
    [(recorder.run registry requests).2.snapshot]

theorem sound_pieces (requests : List Request) :
    ∀ piece ∈ recorder.pieces registry requests, piece.Sound := by
  intro piece member
  rcases List.mem_append.mp member with handed | left
  · obtain ⟨⟨request, answer⟩, inRun, isFlush⟩ := List.mem_filterMap.mp handed
    obtain ⟨point, answered⟩ := exists_of_mem_run inRun
    cases request with
    | flush =>
      cases answered
      cases isFlush
      exact sound_snapshot point
    | _ => cases isFlush
  · rw [List.mem_singleton.mp left]
    exact sound_snapshot _

/-- A request that is no flush hands nothing over and adds to the notes what it brings. -/
theorem mem_notes {request : Request} {usage : Usage} (noFlush : request ≠ .flush) :
    usage ∈ (recorder.answer registry request).2.usages ↔
      usage ∈ recorder.usages ∨ usage ∈ request.usages registry := by
  cases request with
  | probe name identity =>
    show usage ∈ (recorder.probe registry name identity).2.usages ↔ _
    rw [mem_probe, Request.usages]
    split <;> simp_all
  | record identity name =>
    rw [answer, record, Usage.mem_insert, Request.usages, List.mem_singleton, or_comm]
  | snapshot => simp [answer, Request.usages]
  | flush => exact absurd rfl noFlush

theorem pieces_flush (rest : List Request) :
    recorder.pieces registry (.flush :: rest) =
      recorder.snapshot :: empty.pieces registry rest := rfl

theorem pieces_cons {request : Request} (noFlush : request ≠ .flush) (rest : List Request) :
    recorder.pieces registry (request :: rest) =
      (recorder.answer registry request).2.pieces registry rest := by
  cases request with
  | flush => exact absurd rfl noFlush
  | _ => rfl

/-- What the pieces of a run hold is what was noted before it and what its requests bring, each
usage under the normal form of its identity. -/
theorem mem_pieces {requests : List Request} {usage : Usage} :
    (∃ piece ∈ recorder.pieces registry requests, usage ∈ piece.usages) ↔
      ∃ noted ∈ recorder.usages ++ requests.flatMap (Request.usages registry),
        usage = noted.normal := by
  induction requests generalizing recorder with
  | nil =>
    simp only [pieces, run, List.filterMap_nil, List.nil_append, List.mem_singleton,
      exists_eq_left, mem_snapshot, List.flatMap_nil, List.append_nil]
  | cons request rest inductionHypothesis =>
    by_cases isFlush : request = .flush
    · subst isFlush
      rw [pieces_flush, List.flatMap_cons, Request.usages, List.nil_append]
      simp only [List.mem_cons, List.mem_append, or_and_right, exists_or, exists_eq_left,
        inductionHypothesis, mem_snapshot, show empty.usages = [] from rfl, List.not_mem_nil,
        false_or]
    · rw [pieces_cons isFlush, inductionHypothesis]
      simp only [List.mem_append, mem_notes isFlush, List.flatMap_cons, or_assoc]

end Run

end Recorder

/-! ### Merging -/

namespace Aggregate

theorem mem_foldl_merge (pieces : List Aggregate) (aggregate : Aggregate) {usage : Usage} :
    usage ∈ (pieces.foldl merge aggregate).usages ↔
      usage ∈ aggregate.usages ∨ ∃ piece ∈ pieces, usage ∈ piece.usages := by
  induction pieces generalizing aggregate with
  | nil => simp
  | cons piece rest inductionHypothesis =>
    rw [List.foldl_cons, inductionHypothesis, mem_merge, or_assoc]
    simp only [List.mem_cons, exists_eq_or_imp]

theorem sound_foldl_merge {pieces : List Aggregate} {aggregate : Aggregate}
    (sound : aggregate.Sound) (all : ∀ piece ∈ pieces, piece.Sound) :
    (pieces.foldl merge aggregate).Sound := by
  induction pieces generalizing aggregate with
  | nil => exact sound
  | cons piece rest inductionHypothesis =>
    obtain ⟨here, others⟩ := List.forall_mem_cons.mp all
    exact inductionHypothesis (sound.merge here) others

end Aggregate

namespace Recorder

/-- What the pieces of a run make up, in whatever order they are merged. -/
theorem foldl_merge_pieces {registry : List String} {requests : List Request}
    {pieces : List Aggregate} (perm : pieces.Perm (empty.pieces registry requests)) :
    pieces.foldl Aggregate.merge .empty = directly registry requests := by
  refine (Aggregate.sound_foldl_merge Aggregate.sound_empty fun piece member =>
    sound_pieces requests piece (perm.mem_iff.mp member)).eq_of_mem_iff
      (Aggregate.sound_foldl_record Aggregate.sound_empty _) fun usage => ?_
  calc usage ∈ (pieces.foldl Aggregate.merge .empty).usages
    _ ↔ ∃ piece ∈ pieces, usage ∈ piece.usages := by
      rw [Aggregate.mem_foldl_merge]
      exact or_iff_right List.not_mem_nil
    _ ↔ ∃ piece ∈ empty.pieces registry requests, usage ∈ piece.usages := by
      simp only [perm.mem_iff]
    _ ↔ ∃ noted ∈ requests.flatMap (Request.usages registry), usage = noted.normal := mem_pieces
    _ ↔ usage ∈ (directly registry requests).usages := by
      rw [directly, mem_foldl_record]
      exact (or_iff_right List.not_mem_nil).symm

/-- A recorder loses nothing and makes nothing up. Requests are answered one after the other. The
aggregates that the flushes hand over, merged in any order with a last snapshot, are the aggregate
in which every note and every probe for a known name is recorded directly. A probe answers whether
the registry knows the name. At any point, a snapshot shows what a flush would hand over there and
changes nothing in what comes after it, and behind a flush it shows nothing. -/
theorem run_requests (registry : List String) (requests : List Request) :
    let transcript (requests : List Request) := (empty.run registry requests).1
    let last (requests : List Request) := (empty.run registry requests).2
    (transcript requests).map Prod.fst = requests ∧
    (∀ pieces : List Aggregate,
      pieces.Perm ((transcript requests).filterMap flushed? ++ [(last requests).snapshot]) →
      pieces.foldl Aggregate.merge .empty = directly registry requests) ∧
    (∀ name identity answer, (.probe name identity, answer) ∈ transcript requests →
      answer = .known (decide (name ∈ registry))) ∧
    ∀ before after, requests = before ++ after → ∃ shown behind,
      transcript requests = transcript before ++ behind ∧
      transcript (before ++ .snapshot :: after) =
        transcript before ++ (.snapshot, .telemetry shown) :: behind ∧
      last (before ++ .snapshot :: after) = last requests ∧
      transcript (before ++ [.flush, .snapshot]) =
        transcript before ++ [(.flush, .telemetry shown), (.snapshot, .telemetry .empty)] := by
  refine ⟨map_run requests, fun _ => foldl_merge_pieces, fun name identity answer member => ?_,
    fun before after split => ?_⟩
  · obtain ⟨point, answered⟩ := exists_of_mem_run member
    exact answered.trans (congrArg Answer.known (probe_fst name identity))
  · subst split
    simp only [run_append]
    exact ⟨_, _, rfl, rfl, rfl, rfl⟩

/-- One identity in three spellings, and usages handed over in two flushes. -/
def splitRequests : List Request :=
  [.probe "user-card" "./a.hbs", .flush, .probe "side-bar" "a.hbs", .record ".\\a.hbs" "panel-box",
    .snapshot, .flush, .probe "user-card" "a.hbs"]

theorem run_splitRequests :
    [⟨[("a.hbs", "panel-box")]⟩, ⟨[("a.hbs", "user-card")]⟩, ⟨[("a.hbs", "user-card")]⟩].foldl
        Aggregate.merge .empty = directly ["user-card"] splitRequests ∧
      (directly ["user-card"] splitRequests).toDatalet =
        [("a.hbs", ["panel-box", "user-card"])] := by
  obtain ⟨-, merged, -, -⟩ := run_requests ["user-card"] splitRequests
  exact ⟨merged _ (by decide +kernel), by decide +kernel⟩

end Recorder

end TagMigration
