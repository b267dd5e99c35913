/-
What passes make of the content of a file. Reading and the search for invocations do not look at
the identity of a template, so a content that was instrumented under one identity is left alone
under any other, and its probes are taken out under any other. This is why it does not matter
along which path a run comes to a file, nor how often.
-/
import TagMigration.Proofs.Migrated
import TagMigration.Proofs.Project.Settled
import TagMigration.Proofs.Telemetry.UsageSet

namespace TagMigration

/-! ### Identities -/

theorem Config.plain_identityFor (config : Config) (path : Path) :
    '\\' ∉ (config.identityFor path).toList :=
  Identity.plain_normalise _

/-! ### Rules that look for the same -/

namespace Reader

/-- What one rule keeps, another one keeps that leaves the same statements alone and replaces no
others. -/
theorem kept_congr {first second : Rule}
    (sameLeaves : ∀ statement, first.leaves statement = second.leaves statement)
    (noMore : ∀ scope statement, first.replace? scope statement = none →
      second.replace? scope statement = none)
    {phrase : Phrase} (regular : Regular phrase) :
    ∀ scope, Kept first scope phrase → Kept second scope phrase := by
  induction regular with
  | nil =>
    intro scope _
    rw [Kept, Rule.rewritePhrase, Rule.rewriteBody]
  | @leaf statement body isLeaf more keptMore =>
    intro scope kept
    obtain ⟨stays, further⟩ := kept_uncons kept
    rw [first.rewrite_leaf scope isLeaf] at stays
    have staysToo := noMore scope statement (replace?_of_replaced (congrArg Prod.snd stays))
    refine kept_cons (kept_single ?_) (keptMore scope further)
    rw [second.rewrite_leaf scope isLeaf, Rule.replaced_of_none scope staysToo]
  | @element tags children body content more keptContent keptMore =>
    intro scope kept
    obtain ⟨stays, further⟩ := kept_uncons kept
    obtain ⟨here, inside⟩ := kept_children stays
    refine kept_cons (kept_single ?_) (keptMore scope further)
    rw [second.rewrite_element, kept_content (keptContent _ inside)]
    simp only [Rule.replaced_of_none scope (noMore scope _ here)]
  | @block tags program body params chained inverse content others more keptContent keptOthers
      keptMore =>
    intro scope kept
    obtain ⟨stays, further⟩ := kept_uncons kept
    refine kept_cons ?_ (keptMore scope further)
    cases left : first.leaves (.block tags ⟨program, params, chained⟩ inverse) with
    | true => exact kept_single (second.rewrite_left scope (sameLeaves _ ▸ left))
    | false =>
      obtain ⟨here, inside, behind⟩ := kept_program left stays
      exact kept_block (sameLeaves _ ▸ left) (noMore scope _ here) (keptContent _ inside)
        (keptOthers scope behind)
  | noInverse =>
    intro scope _
    rw [Kept, Rule.rewritePhrase, Rule.rewriteInverse]
  | elseBody content keptContent =>
    intro scope kept
    exact kept_elseBody.mpr (keptContent _ (kept_elseBody.mp kept))
  | elseBlock content others keptContent keptOthers =>
    intro scope kept
    obtain ⟨inside, behind⟩ := kept_elseBlock.mp kept
    exact kept_elseBlock.mpr ⟨keptContent _ inside, keptOthers scope behind⟩

/-- Whether there is anything left to probe does not depend on the identity. -/
theorem kept_probe {identity : String} (other : String) {phrase : Phrase} {scope : Scope}
    (regular : Regular phrase) (kept : Kept (Probe.rule identity) scope phrase) :
    Kept (Probe.rule other) scope phrase := by
  have sameLeaves (statement : Statement) :
      (Probe.rule identity).leaves statement = (Probe.rule other).leaves statement := rfl
  have noMore (scope : Scope) (statement : Statement)
      (stays : (Probe.rule identity).replace? scope statement = none) :
      (Probe.rule other).replace? scope statement = none :=
    Option.map_eq_none_iff.mpr (Option.map_eq_none_iff.mp stays)
  exact kept_congr sameLeaves noMore regular scope kept

end Reader

/-! ### Contents that are templates -/

/-- The template that a content is, if it is one. It has no identity yet. -/
def Template.ofContent? (content : ByteArray) : Option Template :=
  (String.fromUTF8? content).bind fun source => (Template.read source "").toOption

theorem Template.ofContent?_eq_some {content : ByteArray} {template : Template} :
    Template.ofContent? content = some template ↔ ∃ source body, content = source.toUTF8 ∧
      template = ⟨"", source, body⟩ ∧
      Reader.Spelling none 0 source.toList (.content body) := by
  rw [Template.ofContent?, Option.bind_eq_some_iff]
  constructor
  · rintro ⟨source, isText, read⟩
    cases reads : Template.read source "" with
    | error fault =>
      rw [reads] at read
      cases read
    | ok made =>
      rw [reads] at read
      cases read
      obtain ⟨body, rfl, spelling⟩ := Template.read_eq_ok.mp reads
      exact ⟨source, body, (toUTF8_of_fromUTF8? isText).symm, rfl, spelling⟩
  · rintro ⟨source, body, rfl, rfl, spelling⟩
    refine ⟨source, fromUTF8?_toUTF8 source, ?_⟩
    rw [Template.read_eq_ok.mpr ⟨body, rfl, spelling⟩]
    rfl

namespace Run

section Content

variable {pass : Template → PassResult} {identity source : String} {body : List Statement}
  {content : ByteArray}

/-- A content that is no template stays. -/
theorem rework_of_none (pass : Template → PassResult) (identity : String)
    (noTemplate : Template.ofContent? content = none) : rework pass identity content = content := by
  rw [rework]
  cases isText : String.fromUTF8? content with
  | none => rfl
  | some source =>
    simp only [transform, Template.load]
    cases read : Template.read source identity with
    | error fault => rfl
    | ok template =>
      obtain ⟨body, -, spelling⟩ := Template.read_eq_ok.mp read
      rw [Template.ofContent?_eq_some.mpr
        ⟨source, body, (toUTF8_of_fromUTF8? isText).symm, rfl, spelling⟩] at noTemplate
      cases noTemplate

/-- A template becomes what is printed of it after the pass. -/
theorem rework_of_print {text : String}
    (spelling : Reader.Spelling none 0 source.toList (.content body))
    (prints : (pass ⟨identity, source, body⟩).template.print = .ok text) :
    rework pass identity source.toUTF8 = text.toUTF8 := by
  rw [rework, fromUTF8?_toUTF8]
  simp only [transform, Template.load, Template.read_eq_ok.mpr ⟨body, rfl, spelling⟩]
  simp only [bind, Except.bind, Template.render, prints]

/-! ### Contents at rest -/

/-- A content that a pass makes nothing else of, whatever the identity of the template. -/
def AtRest (pass : Template → PassResult) (content : ByteArray) : Prop :=
  ∀ identity, rework pass identity content = content

theorem atRest_instrument_of_kept {scopeIdentity : String}
    (spelling : Reader.Spelling none 0 source.toList (.content body))
    (kept : Reader.Kept (Probe.rule scopeIdentity) .empty (.content body)) :
    AtRest Template.instrument source.toUTF8 := by
  intro identity
  refine rework_of_print spelling ?_
  rw [Template.instrument, Rule.run_of_spelling (Probe.rule_onInvocations identity) spelling,
    Reader.kept_content (Reader.kept_probe identity spelling.regular kept)]
  exact Template.print_of_spelling identity spelling

/-- A template without conditionals is left alone by stripping. -/
theorem atRest_strip
    (unprobed : ∀ template, Template.ofContent? content = some template → template.Unprobed) :
    AtRest Template.strip content := by
  intro identity
  cases isTemplate : Template.ofContent? content with
  | none => exact rework_of_none _ _ isTemplate
  | some template =>
    have noProbe := unprobed template isTemplate
    obtain ⟨source, body, rfl, rfl, spelling⟩ := Template.ofContent?_eq_some.mp isTemplate
    refine rework_of_print spelling ?_
    have same : (Probe.stripBody body).1 = body :=
      Phrase.content.inj (spelling.regular.strip_self noProbe)
    rw [Template.strip]
    simp only [same]
    exact Template.print_of_spelling identity spelling

/-- A content that was instrumented is at rest. -/
theorem atRest_instrument (plainIdentity : '\\' ∉ identity.toList)
    (plainNames : ∀ template, Template.ofContent? content = some template → template.PlainNames) :
    AtRest Template.instrument (rework Template.instrument identity content) := by
  cases isTemplate : Template.ofContent? content with
  | none =>
    rw [rework_of_none _ _ isTemplate]
    exact fun other => rework_of_none _ _ isTemplate
  | some template =>
    have plain := plainNames template isTemplate
    obtain ⟨source, body, rfl, rfl, spelling⟩ := Template.ofContent?_eq_some.mp isTemplate
    obtain ⟨text, copy, spelled, twins, kept⟩ := exists_reread spelling plainIdentity plain
    rw [rework_of_print spelling (Template.print_of_twin spelled twins)]
    exact atRest_instrument_of_kept spelled kept

/-- What was instrumented is restored by stripping, under any identity. -/
theorem rework_strip_instrument (plainIdentity : '\\' ∉ identity.toList)
    (plainNames : ∀ template, Template.ofContent? content = some template → template.PlainNames)
    (unprobed : ∀ template, Template.ofContent? content = some template → template.Unprobed)
    (other : String) :
    rework Template.strip other (rework Template.instrument identity content) = content := by
  cases isTemplate : Template.ofContent? content with
  | none => rw [rework_of_none _ _ isTemplate, rework_of_none _ _ isTemplate]
  | some template =>
    have plain := plainNames template isTemplate
    have noProbe := unprobed template isTemplate
    obtain ⟨source, body, rfl, rfl, spelling⟩ := Template.ofContent?_eq_some.mp isTemplate
    obtain ⟨text, copy, spelled, twins, -⟩ := exists_reread spelling plainIdentity plain
    rw [rework_of_print spelling (Template.print_of_twin spelled twins)]
    have stripped : Twin source.toList text.toList (.content body)
        (.content (Probe.stripBody copy).1) := by
      have twinsStripped := twins.strip
      rw [Phrase.strip, Template.stripBody_instrument _ spelling.regular] at twinsStripped
      rwa [show (Probe.stripBody body).1 = body from
        Phrase.content.inj (spelling.regular.strip_self noProbe)] at twinsStripped
    obtain ⟨printed, left, right⟩ := @Template.exists_print_of_twin _ other _ _ _ stripped
    rw [Template.print_of_spelling other spelling] at left
    cases left
    exact rework_of_print spelled right

end Content

end Run

/-! ### Texts without tags -/

section Texts

variable {body : List Statement}

theorem Reader.kept_of_isText {identity : String} {scope : Scope}
    (texts : body.all Statement.isText = true) :
    Kept (Probe.rule identity) scope (.content body) := by
  induction body with
  | nil => rw [Kept, Rule.rewritePhrase, Rule.rewriteBody]
  | cons statement rest inductionHypothesis =>
    rw [List.all_cons, Bool.and_eq_true] at texts
    refine kept_cons (kept_single ?_) (inductionHypothesis texts.2)
    cases statement with
    | text run => exact Rule.rewrite_text scope (Probe.rule_onInvocations identity) run
    | _ => cases texts.1

theorem Template.unprobed_of_isText {identity source : String}
    (texts : body.all Statement.isText = true) :
    (⟨identity, source, body⟩ : Template).Unprobed := by
  induction body with
  | nil => exact List.forall_mem_nil _
  | cons statement rest inductionHypothesis =>
    rw [List.all_cons, Bool.and_eq_true] at texts
    cases statement with
    | text run =>
      intro statement member
      rcases List.mem_cons.mp member with rfl | member
      · rfl
      · exact inductionHypothesis texts.2 statement member
    | _ => cases texts.1

/-- The text of the helper has not a single tag. -/
theorem Helper.exists_spelling : ∃ body, body.all Statement.isText = true ∧
    Reader.Spelling none 0 Helper.source.toList (.content body) := by
  have succeeds : ((Reader.content (.ofText Helper.source.toList)).toOption.any fun done =>
      decide (done.1.2 = .endOfInput) && done.1.1.all Statement.isText) = true := by
    rw [Helper.source, String.toList_ofList]
    decide +kernel
  cases reads : Reader.content (.ofText Helper.source.toList) with
  | error fault =>
    rw [reads] at succeeds
    cases succeeds
  | ok done =>
    obtain ⟨⟨body, stop⟩, cursor⟩ := done
    rw [reads] at succeeds
    obtain ⟨isEnd, texts⟩ := (Bool.and_eq_true _ _).mp succeeds
    obtain rfl : stop = .endOfInput := of_decide_eq_true isEnd
    have read : Template.read Helper.source "" = .ok ⟨"", Helper.source, body⟩ := by
      rw [Template.read, reads]
      rfl
    obtain ⟨same, isBody, spelling⟩ := Template.read_eq_ok.mp read
    cases isBody
    exact ⟨_, texts, spelling⟩

/-- Neither pass does anything to the helper. -/
theorem Helper.atRest_content :
    Run.AtRest Template.instrument Helper.content ∧ Run.AtRest Template.strip Helper.content := by
  obtain ⟨body, texts, spelling⟩ := Helper.exists_spelling
  rw [Helper.content]
  generalize Helper.source = source at spelling
  refine ⟨Run.atRest_instrument_of_kept spelling (@Reader.kept_of_isText _ "" _ texts),
    Run.atRest_strip fun template isTemplate => ?_⟩
  have isRead := Template.ofContent?_eq_some.mpr ⟨source, body, rfl, rfl, spelling⟩
  rw [isRead] at isTemplate
  cases isTemplate
  exact Template.unprobed_of_isText texts

end Texts

end TagMigration
