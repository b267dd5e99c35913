/-
What an aggregate comes to hold. It is fed with single usages, with datalets, with telemetry
texts and with other aggregates, which were fed in their turn. However the feeds are nested,
ordered or repeated, the aggregate holds the normal forms of the usages that they supply, and nothing
else. So the usages supplied determine it.
-/
import TagMigration.Proofs.Telemetry.UsageSet

namespace TagMigration

/-! ### Telemetry texts -/

namespace Aggregate

/-- The aggregate of datalets, one after the other. -/
def ofDatalets (datalets : List Datalet) : Aggregate :=
  datalets.foldl addDatalet empty

theorem sound_ofDatalets (datalets : List Datalet) : (ofDatalets datalets).Sound := by
  have added (aggregate : Aggregate) (sound : aggregate.Sound) :
      (datalets.foldl addDatalet aggregate).Sound := by
    induction datalets generalizing aggregate with
    | nil => exact sound
    | cons datalet rest inductionHypothesis =>
      exact inductionHypothesis _ (sound.addDatalet datalet)
  exact added empty sound_empty

theorem mem_ofDatalets {datalets : List Datalet} {usage : Usage} :
    usage ∈ (ofDatalets datalets).usages ↔
      ∃ supplied ∈ datalets.flatMap Datalet.usages, usage = supplied.normal := by
  have added (aggregate : Aggregate) :
      usage ∈ (datalets.foldl addDatalet aggregate).usages ↔ usage ∈ aggregate.usages ∨
        ∃ supplied ∈ datalets.flatMap Datalet.usages, usage = supplied.normal := by
    induction datalets generalizing aggregate with
    | nil => simp
    | cons datalet rest inductionHypothesis =>
      rw [List.foldl_cons, inductionHypothesis, mem_addDatalet, or_assoc]
      simp only [List.flatMap_cons, List.mem_append, or_and_right, exists_or]
  rw [ofDatalets, added]
  exact or_iff_right nofun

theorem ofDatalets_append (first second : List Datalet) :
    ofDatalets (first ++ second) = (ofDatalets first).merge (ofDatalets second) := by
  refine (sound_ofDatalets _).eq_of_mem_iff
    ((sound_ofDatalets first).merge (sound_ofDatalets second)) fun usage => ?_
  simp only [mem_merge, mem_ofDatalets, List.flatMap_append, List.mem_append, or_and_right,
    exists_or]

end Aggregate

/-- The datalets of a telemetry text, or why it is not accepted. -/
def Datalet.ofText (text : String) : Except Error (List Datalet) :=
  match Json.value .keep Json.nestingLimit text.toList with
  | none => .error (.telemetry .notJson)
  | some (json, rest) =>
    match Aggregate.datalets? json with
    | none => .error (.telemetry .wrongShape)
    | some datalets => if Json.atEnd rest then .ok datalets else .error (.telemetry .notJson)

theorem Aggregate.ofText_eq (text : String) :
    ofText text = (Datalet.ofText text).map ofDatalets := by
  rw [ofText, Datalet.ofText]
  cases Json.value .keep Json.nestingLimit text.toList with
  | none => rfl
  | some found =>
    simp only
    cases datalets? found.1 with
    | none => rfl
    | some datalets =>
      simp only
      split <;> rfl

/-! ### Feeds -/

/-- What an aggregate is fed with: a name in a template, a datalet, a telemetry text, of which
nothing is taken if it is not accepted, or an aggregate that was fed from nothing. -/
inductive Feed where
  | record (identity name : String)
  | report (datalet : Datalet)
  | load (text : String)
  | aggregate (feeds : List Feed)

namespace Feed

mutual

/-- The aggregate after a feed. -/
def apply (aggregate : Aggregate) : Feed → Aggregate
  | .record identity name => aggregate.record identity name
  | .report datalet => aggregate.addDatalet datalet
  | .load text =>
    match Aggregate.ofText text with
    | .ok other => aggregate.merge other
    | .error _ => aggregate
  | .aggregate feeds => aggregate.merge (applyAll .empty feeds)

/-- The aggregate after feeds, one after the other. -/
def applyAll (aggregate : Aggregate) : List Feed → Aggregate
  | [] => aggregate
  | feed :: rest => applyAll (feed.apply aggregate) rest

end

/-- The aggregate that was fed from nothing. -/
def build (feeds : List Feed) : Aggregate :=
  applyAll .empty feeds

mutual

/-- The usages that a feed supplies, with identities as it spells them. -/
def supply : Feed → List Usage
  | .record identity name => [(identity, name)]
  | .report datalet => datalet.usages
  | .load text =>
    match Datalet.ofText text with
    | .ok datalets => datalets.flatMap Datalet.usages
    | .error _ => []
  | .aggregate feeds => supplyAll feeds

/-- The usages that feeds supply. -/
def supplyAll : List Feed → List Usage
  | [] => []
  | feed :: rest => feed.supply ++ supplyAll rest

end

theorem supplyAll_eq (feeds : List Feed) : supplyAll feeds = feeds.flatMap supply := by
  induction feeds with
  | nil => rfl
  | cons feed rest inductionHypothesis =>
    rw [supplyAll, inductionHypothesis, List.flatMap_cons]

/-! ### What feeds do -/

mutual

theorem sound_apply {aggregate : Aggregate} (sound : aggregate.Sound) :
    ∀ feed : Feed, (feed.apply aggregate).Sound
  | .record identity name => sound.record identity name
  | .report datalet => sound.addDatalet datalet
  | .load text => by
    rw [apply, Aggregate.ofText_eq]
    cases Datalet.ofText text with
    | error => exact sound
    | ok datalets => exact sound.merge (Aggregate.sound_ofDatalets datalets)
  | .aggregate feeds => sound.merge (sound_applyAll Aggregate.sound_empty feeds)

/-- Feeds keep an aggregate sound. -/
theorem sound_applyAll {aggregate : Aggregate} (sound : aggregate.Sound) :
    ∀ feeds : List Feed, (applyAll aggregate feeds).Sound
  | [] => sound
  | feed :: rest => sound_applyAll (sound_apply sound feed) rest

end

mutual

theorem mem_apply {usage : Usage} (aggregate : Aggregate) : ∀ feed : Feed,
    usage ∈ (feed.apply aggregate).usages ↔
      usage ∈ aggregate.usages ∨ ∃ supplied ∈ feed.supply, usage = supplied.normal
  | .record identity name => by
    rw [apply, supply, Aggregate.mem_record, or_comm]
    simp only [List.mem_singleton, exists_eq_left]
    rfl
  | .report datalet => Aggregate.mem_addDatalet
  | .load text => by
    rw [apply, supply, Aggregate.ofText_eq]
    cases Datalet.ofText text with
    | error =>
      simp only [Except.map, List.not_mem_nil, false_and, exists_false, or_false]
    | ok datalets =>
      simp only [Except.map, Aggregate.mem_merge, Aggregate.mem_ofDatalets]
  | .aggregate feeds => by
    rw [apply, supply, Aggregate.mem_merge, mem_applyAll .empty feeds]
    exact or_congr_right (or_iff_right nofun)

/-- After feeds an aggregate holds what it held and the normal forms of what they supply. -/
theorem mem_applyAll {usage : Usage} (aggregate : Aggregate) : ∀ feeds : List Feed,
    usage ∈ (applyAll aggregate feeds).usages ↔
      usage ∈ aggregate.usages ∨ ∃ supplied ∈ supplyAll feeds, usage = supplied.normal
  | [] => by simp [applyAll, supplyAll]
  | feed :: rest => by
    rw [applyAll, supplyAll, mem_applyAll _ rest, mem_apply aggregate feed, or_assoc]
    simp only [List.mem_append, or_and_right, exists_or]

end

theorem mem_build {feeds : List Feed} {usage : Usage} :
    usage ∈ (build feeds).usages ↔ ∃ supplied ∈ supplyAll feeds, usage = supplied.normal := by
  rw [build, mem_applyAll]
  exact or_iff_right nofun

/-- What is supplied, up to the spelling of identities, determines the aggregate. -/
theorem build_congr {feeds others : List Feed}
    (same : ∀ usage, usage ∈ (supplyAll others).map Usage.normal ↔
      usage ∈ (supplyAll feeds).map Usage.normal) : build others = build feeds := by
  refine (sound_applyAll Aggregate.sound_empty others).eq_of_mem_iff
    (sound_applyAll Aggregate.sound_empty feeds) fun usage => ?_
  have held (feeds : List Feed) :
      usage ∈ (build feeds).usages ↔ usage ∈ (supplyAll feeds).map Usage.normal := by
    simp only [mem_build, List.mem_map, eq_comm]
  exact (held others).trans ((same usage).trans (held feeds).symm)

/-- Feeds that supply the same usages build the same aggregate. -/
theorem build_of_mem_iff {feeds others : List Feed}
    (same : ∀ usage, usage ∈ supplyAll others ↔ usage ∈ supplyAll feeds) :
    build others = build feeds :=
  build_congr fun usage => by simp only [List.mem_map, same]

/-- A name is confirmed under every spelling of the identities that it was supplied under. -/
theorem mem_confirmedFor_build {feeds : List Feed} {identity name : String} :
    name ∈ (build feeds).confirmedFor identity ↔
      ∃ spelled, (spelled, name) ∈ supplyAll feeds ∧
        Identity.normalise spelled = Identity.normalise identity := by
  rw [Aggregate.mem_confirmedFor, mem_build]
  constructor
  · rintro ⟨⟨spelled, found⟩, member, equal⟩
    obtain ⟨same, rfl⟩ := Prod.mk.inj equal
    exact ⟨spelled, member, same.symm⟩
  · rintro ⟨spelled, member, same⟩
    exact ⟨(spelled, name), member, Prod.ext same.symm rfl⟩

end Feed

/-! ### Arrays of datalets -/

namespace Aggregate

theorem ofText_of_array {text : String} {items : List Json}
    (read : Json.parse? Json.nestingLimit text = some (.array items)) :
    ofText text = (items.mapM Datalet.ofJson?).elim (.error (.telemetry .wrongShape))
      fun datalets => .ok (ofDatalets datalets) := by
  rw [Json.parse?] at read
  obtain ⟨⟨json, rest⟩, found, isWhole⟩ := Option.bind_eq_some_iff.mp read
  simp only [Option.ite_none_right_eq_some, Option.some.injEq] at isWhole
  obtain ⟨atEnd, rfl⟩ := isWhole
  rw [ofText, found]
  simp only [datalets?, atEnd, if_true]
  cases items.mapM Datalet.ofJson? <;> rfl

theorem merge_merge {aggregate first second : Aggregate} (sound : aggregate.Sound)
    (firstSound : first.Sound) (secondSound : second.Sound) :
    (aggregate.merge first).merge second = aggregate.merge (first.merge second) :=
  ((sound.merge firstSound).merge secondSound).eq_of_mem_iff
    (sound.merge (firstSound.merge secondSound)) fun usage => by simp only [mem_merge, or_assoc]

theorem empty_merge {aggregate : Aggregate} (sound : aggregate.Sound) :
    empty.merge aggregate = aggregate :=
  (sound_empty.merge sound).eq_of_mem_iff sound fun usage => by
    rw [mem_merge]
    exact or_iff_right nofun

theorem map_foldl_merge_cons (aggregate : Aggregate) (text : String) (rest : List String) :
    ((text :: rest).mapM ofText).map (List.foldl merge aggregate) =
      (ofText text).bind fun first =>
        (rest.mapM ofText).map (List.foldl merge (aggregate.merge first)) := by
  rw [List.mapM_cons]
  cases ofText text with
  | error => rfl
  | ok first => cases rest.mapM ofText <;> rfl

/-- Merging the aggregates of the pieces of an array, one after the other. -/
theorem map_foldl_merge {texts : List String} {parts : List (List Json)} {aggregate : Aggregate}
    (sound : aggregate.Sound)
    (pieces : texts.map (Json.parse? Json.nestingLimit) = parts.map fun items => some (.array items)) :
    (texts.mapM ofText).map (List.foldl merge aggregate) =
      (parts.flatten.mapM Datalet.ofJson?).elim (.error (.telemetry .wrongShape))
        fun datalets => .ok (aggregate.merge (ofDatalets datalets)) := by
  induction parts generalizing texts aggregate with
  | nil =>
    rw [List.map_eq_nil_iff.mp pieces]
    rfl
  | cons items more inductionHypothesis =>
    obtain ⟨text, rest, rfl, read, others⟩ := List.map_eq_cons_iff.mp pieces
    rw [map_foldl_merge_cons, ofText_of_array read, List.flatten_cons, List.mapM_append]
    cases items.mapM Datalet.ofJson? with
    | none => rfl
    | some first =>
      have further := inductionHypothesis (sound.merge (sound_ofDatalets first)) others
      refine further.trans ?_
      cases more.flatten.mapM Datalet.ofJson? with
      | none => rfl
      | some second =>
        refine congrArg Except.ok ?_
        rw [ofDatalets_append, merge_merge sound (sound_ofDatalets first) (sound_ofDatalets second)]

/-- An array that is cut into arrays gives the aggregates of the pieces, merged; and it is refused
if one of the pieces is. -/
theorem ofText_of_split {whole : String} {texts : List String} {parts : List (List Json)}
    (read : Json.parse? Json.nestingLimit whole = some (.array parts.flatten))
    (pieces : texts.map (Json.parse? Json.nestingLimit) = parts.map fun items => some (.array items)) :
    ofText whole = (texts.mapM ofText).map (List.foldl merge empty) := by
  rw [ofText_of_array read, map_foldl_merge sound_empty pieces]
  simp only [empty_merge (sound_ofDatalets _)]

end Aggregate

/-! ### What an aggregate holds -/

/-- An aggregate is the set of pairs that it was fed. It stores normal forms of identities, each
with some names; it confirms a name under every spelling of the identities that the name was
supplied under, and under no other; so neither the order of the feeds nor their number matters, nor
whether some of them were gathered in an aggregate of their own first, and an array of datalets may
come in pieces. -/
theorem build_feeds (feeds : List Feed) :
    (∀ identity names, (identity, names) ∈ (Feed.build feeds).toDatalet →
      Identity.normalise identity = identity ∧
        names = (Feed.build feeds).confirmedFor identity ∧ names ≠ []) ∧
    (∀ identity name, name ∈ (Feed.build feeds).confirmedFor identity ↔
      ∃ spelled, (spelled, name) ∈ Feed.supplyAll feeds ∧
        Identity.normalise spelled = Identity.normalise identity) ∧
    (∀ others, (∀ usage, usage ∈ (Feed.supplyAll others).map Usage.normal ↔
        usage ∈ (Feed.supplyAll feeds).map Usage.normal) →
      Feed.build others = Feed.build feeds) ∧
    (∀ others, (∀ feed, feed ∈ others ↔ feed ∈ feeds) → Feed.build others = Feed.build feeds) ∧
    (∀ before group after, feeds = before ++ group ++ after →
      Feed.build (before ++ .aggregate group :: after) = Feed.build feeds) ∧
    ∀ (whole : String) (texts : List String) (parts : List (List Json)),
      Json.parse? Json.nestingLimit whole = some (.array parts.flatten) →
      texts.map (Json.parse? Json.nestingLimit) = parts.map (fun items => some (.array items)) →
      Aggregate.ofText whole =
        (texts.mapM Aggregate.ofText).map (List.foldl Aggregate.merge .empty) := by
  have sound : (Feed.build feeds).Sound := Feed.sound_applyAll Aggregate.sound_empty feeds
  refine ⟨fun _ _ => sound.mem_toDatalet, fun _ _ => Feed.mem_confirmedFor_build,
    fun _ => Feed.build_congr, ?_, ?_, fun _ _ _ => Aggregate.ofText_of_split⟩
  · intro others same
    refine Feed.build_of_mem_iff fun usage => ?_
    simp only [Feed.supplyAll_eq, List.mem_flatMap, same]
  · rintro before group after rfl
    refine Feed.build_of_mem_iff fun usage => ?_
    simp only [Feed.supplyAll_eq, List.flatMap_append, List.flatMap_cons, Feed.supply,
      List.append_assoc]

/-- A name, a text with two spellings of one identity and an aggregate. -/
def mixedFeeds : List Feed :=
  [.record ".\\./a.hbs" "foo", .load "[\x7b\"a.hbs\":[\"bar\"],\"./a.hbs\":[\"foo\"]\x7d]",
    .aggregate [.report [("b.hbs", []), ("a.hbs", ["baz"])]]]

theorem build_mixedFeeds :
    (Feed.build mixedFeeds).toDatalet = [("a.hbs", ["bar", "baz", "foo"])] ∧
      "baz" ∈ (Feed.build mixedFeeds).confirmedFor "././a.hbs" ∧
      Feed.build (mixedFeeds.reverse ++ mixedFeeds) = Feed.build mixedFeeds ∧
      Feed.build [.aggregate mixedFeeds] = Feed.build mixedFeeds ∧
      Aggregate.ofText "[\x7b\"a\":[\"b\"]\x7d, \x7b\x7d]" =
        (["[\x7b\"a\":[\"b\"]\x7d]", "[\x7b\x7d]"].mapM Aggregate.ofText).map
          (List.foldl Aggregate.merge .empty) := by
  obtain ⟨-, confirmed, -, sameFeeds, gathered, split⟩ := build_feeds mixedFeeds
  refine ⟨by decide +kernel, (confirmed _ _).mpr ⟨"a.hbs", by decide +kernel, by decide +kernel⟩,
    sameFeeds _ fun feed => ?_, gathered [] mixedFeeds [] (by simp), ?_⟩
  · simp
  · exact split _ _ [[.object [("a", .strings ["b"])]], [.object []]] (by rfl) (by rfl)

end TagMigration
