/-
Names that are confirmed in batches. A migration by one list of names leaves a tree in which
tags that were built stand among invocations that were read. A second migration walks through
the tags, under the names that they bind, and finds every invocation that the first has left,
in its scope and at its place. So two migrations in a row are one by both lists, with as
many changes, and neither the order of the batches nor a repetition makes a difference.
-/
import TagMigration.Proofs.Instrumented
import TagMigration.Proofs.Pass.Walked

namespace TagMigration

/-! ### What a migration leaves can be migrated -/

/-- Templates over which a pass is a plain recursion: every chained inverse is one block, and no two
invocations begin at the same place. -/
structure Template.Orderly (template : Template) : Prop where
  regular : Regular (.content template.body)
  known : none ∉ bodyPlaces template.body
  distinct : (bodyPlaces template.body).Nodup

section Walk

variable {confirmed : List String}

/-- What becomes of a statement begins where the statement did. -/
theorem Settled.places {statement settled : Statement}
    (becomes : Settled (TagForm.rule confirmed) statement settled) :
    settled.places.Sublist statement.places := by
  cases becomes with
  | stays => exact List.Sublist.refl _
  | replaced replaces =>
    obtain ⟨tag, -, becomes⟩ := TagForm.replace?_eq_some.mp replaces
    rcases TagForm.element?_cases becomes with ⟨_, rfl, rfl⟩ | ⟨tags, body, params, chained, rfl, rfl⟩
    · exact List.nil_sublist _
    · exact .cons _ (List.sublist_append_left _ _)

/-- What a migration leaves of the invocations begins where it began. -/
theorem Walked.places {phrase after : Phrase}
    (walked : Walked (TagForm.rule confirmed) phrase after) :
    after.places.Sublist phrase.places := by
  induction walked with
  | nil => exact .refl _
  | leaf isLeaf becomes more inMore => exact becomes.places.append inMore
  | element content becomes more inContent inMore =>
    exact (becomes.places.trans inContent).append inMore
  | left alone more inMore => exact (List.Sublist.refl _).append inMore
  | block content inverse becomes more inContent inInverse inMore =>
    exact (becomes.places.trans (.cons_cons _ (inContent.append inInverse))).append inMore
  | noInverse => exact .refl _
  | elseBody content inContent => exact inContent
  | elseBlock content inverse inContent inInverse =>
    exact List.Sublist.append (.cons_cons _ (inContent.append inInverse)) (.refl _)

end Walk

theorem Template.Orderly.strip {template : Template} (orderly : template.Orderly) :
    template.strip.template.Orderly where
  regular := orderly.regular.strip
  known member := orderly.known (orderly.regular.places_strip.subset member)
  distinct := orderly.distinct.sublist orderly.regular.places_strip

/-- What a migration makes of an orderly template is orderly. -/
theorem Template.Orderly.migrate {template : Template} (orderly : template.Orderly)
    (confirmed : List String) : (template.migrate confirmed).template.Orderly := by
  have walked := orderly.strip.regular.walked (TagForm.rule confirmed) .empty .empty
  exact ⟨walked.regular (TagForm.rule_keepsRegular confirmed),
    fun member => orderly.strip.known (walked.places.subset member),
    orderly.strip.distinct.sublist walked.places⟩

/-- After a migration there is nothing to strip. -/
theorem Template.Orderly.strip_migrate {template : Template} (orderly : template.Orderly)
    (confirmed : List String) :
    (template.migrate confirmed).template.strip.template = (template.migrate confirmed).template := by
  have walked := orderly.strip.regular.walked (TagForm.rule confirmed) .empty .empty
  have same := Phrase.content.inj ((orderly.migrate confirmed).regular.strip_self
    (walked.unprobed (TagForm.rule_keepsUnprobed confirmed) orderly.regular.unprobed_strip))
  rw [Template.strip]
  simp only [same]

/-! ### Two migrations in a row -/

section Union

variable {first second both : List String}

/-- An invocation has a tag by two lists of names if it has it by one of them. -/
theorem TagForm.tag?_union (union : ∀ name, name ∈ both ↔ name ∈ first ∨ name ∈ second)
    (scope : Scope) (statement : Statement) :
    tag? both scope statement = (tag? first scope statement).or (tag? second scope statement) := by
  simp only [tag?]
  cases statement.invocation? with
  | none => rfl
  | some invocation =>
    simp only [Option.bind_eq_bind, Option.bind_some]
    by_cases unfit : (!invocation.call.positional.isEmpty || invocation.isTrimmed) = true
    · simp only [if_pos unfit, Option.or_none]
    · simp only [if_neg unfit]
      cases Probe.ambiguousName? scope statement with
      | none => rfl
      | some name =>
        simp only [Option.bind_some, List.contains_iff_mem, union name]
        by_cases known : name ∈ first
        · by_cases again : name ∈ second <;> simp [known, again]
        · simp [known]

/-- Whether a statement has a tag form is settled by its tags, whatever it holds. -/
theorem TagForm.replaced_block (confirmed : List String) (scope : Scope) (tags : BlockTags)
    (program : List Statement) (params : List String) (chained : Bool) :
    (TagForm.rule confirmed).replaced scope (.block tags ⟨program, params, chained⟩ none) =
      match tag? confirmed scope (.block tags ⟨[], [], false⟩ none) with
      | some tag => (Build.element tag tags.call.toAttributes params false
          (Build.text "\n" :: program), 1)
      | none => (.block tags ⟨program, params, chained⟩ none, 0) := by
  have same : tag? confirmed scope (.block tags ⟨program, params, chained⟩ none) =
    tag? confirmed scope (.block tags ⟨[], [], false⟩ none) := rfl
  simp only [Rule.replaced, TagForm.rule, same]
  cases tag? confirmed scope (.block tags ⟨[], [], false⟩ none) <;> rfl

theorem TagForm.replaced_mustache (confirmed : List String) (scope : Scope) (tag : Mustache) :
    (TagForm.rule confirmed).replaced scope (.mustache tag) =
      match tag? confirmed scope (.mustache tag) with
      | some name => (Build.element name tag.call.toAttributes [] true [], 1)
      | none => (.mustache tag, 0) := by
  simp only [Rule.replaced, TagForm.rule]
  cases tag? confirmed scope (.mustache tag) <;> rfl

/-- Nothing but an inline tag or a block without an inverse has a tag form. -/
theorem TagForm.replaced_chain (confirmed : List String) (scope : Scope) (tags : BlockTags)
    (program inverse : Program) :
    (TagForm.rule confirmed).replaced scope (.block tags program (some inverse)) =
      (.block tags program (some inverse), 0) := by
  refine Rule.replaced_of_none scope ?_
  simp only [TagForm.rule]
  cases tag? confirmed scope (.block tags program (some inverse)) <;> rfl

theorem TagForm.rewrite_block (confirmed : List String) (scope : Scope) (tags : BlockTags)
    (program : List Statement) (params : List String) (chained : Bool)
    (inverse : Option Program) :
    (TagForm.rule confirmed).rewrite scope (.block tags ⟨program, params, chained⟩ inverse) =
      let inner := (TagForm.rule confirmed).rewriteBody (scope.within params) program
      let others := (TagForm.rule confirmed).rewriteInverse scope inverse
      let outer :=
        (TagForm.rule confirmed).replaced scope (.block tags ⟨inner.1, params, chained⟩ others.1)
      (outer.1, inner.2 + others.2 + outer.2) :=
  Rule.rewrite_block _ _ rfl

theorem TagForm.rewrite_element (confirmed : List String) (scope : Scope) (tags : ElementTags)
    (children : List Statement) :
    (TagForm.rule confirmed).rewrite scope (.element tags children) =
      let inner := (TagForm.rule confirmed).rewriteBody (scope.within tags.params) children
      (.element tags inner.1, inner.2) := by
  rw [Rule.rewrite_element]
  simp only [Rule.replaced_of_none scope (rule_onInvocations confirmed scope (.element ..) rfl),
    Nat.add_zero]

/-- What is no invocation and holds nothing stays. -/
theorem TagForm.rewrite_leaf (confirmed : List String) (scope : Scope) {statement : Statement}
    (isLeaf : statement.isLeaf = true) (noInvocation : statement.invocation? = none) :
    (TagForm.rule confirmed).rewrite scope statement = (statement, 0) := by
  rw [Rule.rewrite_leaf _ _ isLeaf]
  exact Rule.replaced_of_none scope (rule_onInvocations confirmed scope statement noInvocation)

/-- A statement rewritten by one list of names and then by another. -/
def TagForm.inBatches (first second : List String) (scope : Scope) (statement : Statement) :
    Statement × Nat :=
  let once := (TagForm.rule first).rewrite scope statement
  let twice := (TagForm.rule second).rewrite scope once.1
  (twice.1, once.2 + twice.2)

/-- Over the phrase, two lists of names one after the other do what `both` does at once. -/
def Phrase.InBatches (first second both : List String) (scope : Scope) : Phrase → Prop
  | .content body =>
    let once := (TagForm.rule first).rewriteBody scope body
    let twice := (TagForm.rule second).rewriteBody scope once.1
    (TagForm.rule both).rewriteBody scope body = (twice.1, once.2 + twice.2)
  | .inverse _ others =>
    let once := (TagForm.rule first).rewriteInverse scope others
    let twice := (TagForm.rule second).rewriteInverse scope once.1
    (TagForm.rule both).rewriteInverse scope others = (twice.1, once.2 + twice.2)

/-- A statement in front of a body. -/
theorem inBatches_cons {scope : Scope} {statement : Statement} {body : List Statement}
    (here : (TagForm.rule both).rewrite scope statement =
      TagForm.inBatches first second scope statement)
    (more : (Phrase.content body).InBatches first second both scope) :
    (Phrase.content (statement :: body)).InBatches first second both scope := by
  simp only [Phrase.InBatches] at more ⊢
  simp only [Rule.rewriteBody_cons, here, more, TagForm.inBatches, Prod.mk.injEq, true_and]
  omega

/-- An inline tag becomes a tag without content, in which the second list finds nothing. -/
theorem inBatches_leaf (union : ∀ name, name ∈ both ↔ name ∈ first ∨ name ∈ second)
    (scope : Scope) {statement : Statement} (isLeaf : statement.isLeaf = true) :
    (TagForm.rule both).rewrite scope statement =
      TagForm.inBatches first second scope statement := by
  cases invoked : statement.invocation? with
  | none =>
    simp only [TagForm.inBatches, TagForm.rewrite_leaf _ scope isLeaf invoked]
  | some invocation =>
    cases statement with
    | mustache tag =>
      simp only [TagForm.inBatches, Rule.rewrite_leaf _ _ isLeaf, TagForm.replaced_mustache,
        TagForm.tag?_union union]
      cases TagForm.tag? first scope (.mustache tag) with
      | some name =>
        simp only [Option.some_or, Build.element, TagForm.rewrite_element, Rule.rewriteBody]
      | none =>
        simp only [Option.none_or, Rule.rewrite_leaf _ _ isLeaf, TagForm.replaced_mustache,
          Nat.zero_add]
    | block => cases isLeaf
    | _ => cases invoked

/-- A block without an inverse becomes a tag by the first list or by the second; either way what
it holds is rewritten by both, under the names that the block or the tag binds. -/
theorem inBatches_block (union : ∀ name, name ∈ both ↔ name ∈ first ∨ name ∈ second)
    (scope : Scope) (tags : BlockTags) {program : List Statement} (params : List String)
    (chained : Bool)
    (content : (Phrase.content program).InBatches first second both (scope.within params)) :
    (TagForm.rule both).rewrite scope (.block tags ⟨program, params, chained⟩ none) =
      TagForm.inBatches first second scope (.block tags ⟨program, params, chained⟩ none) := by
  simp only [Phrase.InBatches] at content
  simp only [TagForm.inBatches, TagForm.rewrite_block, content, Rule.rewriteInverse,
    TagForm.replaced_block, TagForm.tag?_union union]
  cases TagForm.tag? first scope (.block tags ⟨[], [], false⟩ none) with
  | some name =>
    have newline := TagForm.rewrite_leaf second (scope.within params)
      (show (Build.text "\n").isLeaf = true from rfl) rfl
    simp only [Option.some_or, Build.element, TagForm.rewrite_element, Rule.rewriteBody_cons,
      newline, Prod.mk.injEq, true_and]
    omega
  | none =>
    simp only [Option.none_or, TagForm.rewrite_block, Rule.rewriteInverse, TagForm.replaced_block,
      Prod.mk.injEq, true_and]
    omega

/-- A block with an inverse stays one by every list. -/
theorem inBatches_chain (scope : Scope) (tags : BlockTags) {program : List Statement}
    (params : List String) (chained : Bool) {inverse : Program}
    (content : (Phrase.content program).InBatches first second both (scope.within params))
    (others : (Phrase.inverse tags (some inverse)).InBatches first second both scope) :
    (TagForm.rule both).rewrite scope (.block tags ⟨program, params, chained⟩ (some inverse)) =
      TagForm.inBatches first second scope
        (.block tags ⟨program, params, chained⟩ (some inverse)) := by
  obtain ⟨once, isOnce⟩ := Option.isSome_iff_exists.mp
    ((TagForm.rule first).isSome_rewriteInverse scope (some inverse))
  obtain ⟨twice, isTwice⟩ := Option.isSome_iff_exists.mp
    ((TagForm.rule second).isSome_rewriteInverse scope (some once))
  simp only [Phrase.InBatches, isOnce, isTwice] at content others
  simp only [TagForm.inBatches, TagForm.rewrite_block, content, others, isOnce, isTwice,
    TagForm.replaced_chain, Prod.mk.injEq, true_and]
  omega

/-- Two lists of names one after the other do what both do at once. -/
theorem Regular.inBatches {phrase : Phrase} (regular : Regular phrase)
    (union : ∀ name, name ∈ both ↔ name ∈ first ∨ name ∈ second) :
    ∀ scope, phrase.InBatches first second both scope := by
  induction regular with
  | nil =>
    intro scope
    simp only [Phrase.InBatches, Rule.rewriteBody]
  | leaf isLeaf more inMore =>
    intro scope
    exact inBatches_cons (inBatches_leaf union scope isLeaf) (inMore scope)
  | @element tags children body content more inContent inMore =>
    intro scope
    have inner := inContent (scope.within tags.params)
    simp only [Phrase.InBatches] at inner
    refine inBatches_cons ?_ (inMore scope)
    simp only [TagForm.inBatches, TagForm.rewrite_element, inner]
  | @block tags program body params chained inverse content others more inContent inOthers inMore =>
    intro scope
    refine inBatches_cons ?_ (inMore scope)
    cases inverse with
    | none => exact inBatches_block union scope tags params chained (inContent _)
    | some inverse => exact inBatches_chain scope tags params chained (inContent _) (inOthers scope)
  | noInverse =>
    intro scope
    simp only [Phrase.InBatches, Rule.rewriteInverse]
  | @elseBody tags body params content inContent =>
    intro scope
    have inner := inContent (scope.within params)
    simp only [Phrase.InBatches] at inner
    simp only [Phrase.InBatches, Rule.rewriteInverse_else, inner]
  | @elseBlock tags chained program params bound continued inverse content others inContent
      inOthers =>
    intro scope
    have inner := inContent (scope.within params)
    have outer := inOthers scope
    simp only [Phrase.InBatches] at inner outer
    simp only [Phrase.InBatches, Rule.rewriteInverse_chain, inner, outer, Prod.mk.injEq, true_and]
    omega

end Union

/-! ### Batches -/

/-- A migration of an orderly template is the plain recursion on what stripping leaves. -/
theorem Template.Orderly.migrate_eq {template : Template} (orderly : template.Orderly)
    (confirmed : List String) :
    template.migrate confirmed =
      let rewritten := (TagForm.rule confirmed).rewriteBody .empty template.strip.template.body
      ⟨{ template with body := rewritten.1 }, rewritten.2⟩ :=
  Rule.run_eq (TagForm.rule_onInvocations confirmed) orderly.strip.regular orderly.strip.known
    orderly.strip.distinct

/-- Two migrations in a row are one by both lists. -/
theorem Template.Orderly.migrate_migrate {template : Template} (orderly : template.Orderly)
    {first second both : List String} (union : ∀ name, name ∈ both ↔ name ∈ first ∨ name ∈ second) :
    let once := template.migrate first
    let twice := once.template.migrate second
    twice.template = (template.migrate both).template ∧
      once.changes + twice.changes = (template.migrate both).changes := by
  have inBatches := orderly.strip.regular.inBatches union .empty
  have again := (orderly.migrate first).migrate_eq second
  rw [orderly.strip_migrate first] at again
  simp only [Phrase.InBatches] at inBatches
  simp only [again]
  simp only [orderly.migrate_eq, inBatches, and_self]

theorem Template.orderly_of_read {source identity : String} {template : Template}
    (read : Template.read source identity = .ok template) : template.Orderly := by
  obtain ⟨body, rfl, spelling⟩ := Template.read_eq_ok.mp read
  exact ⟨spelling.regular, spelling.placed.known, spelling.placed.distinct⟩

/-- Names may be confirmed in any batches. Migrating by one list and then, without reading again,
by another gives the template that migrating by both gives, and the changes add up. The order of
the two does not matter, and migrating again by the same list changes nothing. -/
theorem migrate_batches (source identity : String) (template : Template)
    (first second both : List String) (read : Template.read source identity = .ok template)
    (union : ∀ name, name ∈ both ↔ name ∈ first ∨ name ∈ second) :
    let once := template.migrate first
    let twice := once.template.migrate second
    let again := once.template.migrate first
    twice.template = (template.migrate both).template ∧
      once.changes + twice.changes = (template.migrate both).changes ∧
      twice.template = ((template.migrate second).template.migrate first).template ∧
      again.template = once.template ∧ again.changes = 0 := by
  have orderly := Template.orderly_of_read read
  have inOrder := orderly.migrate_migrate union
  have inReverse := orderly.migrate_migrate fun name => (union name).trans or_comm
  have repeated := orderly.migrate_migrate fun name =>
    (or_self_iff : name ∈ first ∨ name ∈ first ↔ name ∈ first).symm
  exact ⟨inOrder.1, inOrder.2, inOrder.1.trans inReverse.1.symm, repeated.1,
    Nat.add_eq_left.mp repeated.2⟩

/-- A block around an inline tag that shows a name the block binds. -/
def boundSource : String :=
  "\x7b\x7b#panel-box as |p|\x7d\x7d\x7b\x7buser-card t=p\x7d\x7d\x7b\x7bp\x7d\x7d" ++
    "\x7b\x7b/panel-box\x7d\x7d\x7b\x7bside-bar\x7d\x7d"

theorem migrate_batches_boundSource : ∃ template,
    Template.read boundSource "a.hbs" = .ok template ∧
      (template.migrate ["user-card"]).changes = 1 ∧
      ((template.migrate ["user-card"]).template.migrate ["panel-box", "p", "side-bar"]).changes =
        2 ∧
      ((template.migrate ["user-card"]).template.migrate ["panel-box", "p", "side-bar"]).template =
        (template.migrate ["side-bar", "p", "user-card", "panel-box"]).template ∧
      ((template.migrate ["user-card"]).template.migrate ["user-card"]).changes = 0 := by
  have succeeds : ((Template.read boundSource "a.hbs").toOption.any fun template =>
      decide ((template.migrate ["user-card"]).changes = 1 ∧
        (template.migrate ["side-bar", "p", "user-card", "panel-box"]).changes = 3)) = true := by
    decide +kernel
  obtain ⟨template, read, once, atOnce⟩ := Template.exists_of_read succeeds
  obtain ⟨same, sum, -, -, idle⟩ := migrate_batches boundSource "a.hbs" template ["user-card"]
    ["panel-box", "p", "side-bar"] ["side-bar", "p", "user-card", "panel-box"] read
    (by grind)
  exact ⟨template, read, once, by omega, same, idle⟩

end TagMigration
