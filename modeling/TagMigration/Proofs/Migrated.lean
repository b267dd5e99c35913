/-
The text of a migrated template. What stood in braces stands in tags now, so everything around
it is read under other conditions: runs of text end in front of an angle bracket, arguments are
attributes, and block params are those of an element. Still the text is read as the migrated
tree, with the new line of a tag merged into the text behind it; and what the migration has left
in braces it would leave again.
-/
import TagMigration.Proofs.Instrumented
import TagMigration.Proofs.Reading.TagSpelling

namespace TagMigration

/-- Every invocation that becomes a tag has arguments that can be written as attributes. -/
def Template.TagsFit (confirmed : List String) (template : Template) : Prop :=
  ∀ occurrence ∈ template.occurrences, occurrence.FitsTag confirmed

instance (confirmed : List String) (template : Template) :
    Decidable (template.TagsFit confirmed) :=
  inferInstanceAs (Decidable (∀ occurrence ∈ template.occurrences, occurrence.FitsTag confirmed))

/-- No invocation of the template is left that would become a tag. -/
def Template.Migrated (confirmed : List String) (template : Template) : Prop :=
  ∀ occurrence ∈ template.occurrences,
    (TagForm.rule confirmed).replace? occurrence.scope occurrence.statement = none

/-! ### Nothing left to replace -/

namespace Reader

section Left

variable {rule : Rule} {scope : Scope}

theorem replace?_of_replaced {statement : Statement}
    (count : (rule.replaced scope statement).2 = 0) : rule.replace? scope statement = none := by
  cases replaces : rule.replace? scope statement with
  | none => rfl
  | some replacement =>
    rw [Rule.replaced_of_some scope replaces] at count
    cases count

theorem kept_children {tags : ElementTags} {children : List Statement}
    (stays : rule.rewrite scope (.element tags children) = (.element tags children, 0)) :
    rule.replace? scope (.element tags children) = none ∧
      Kept rule (scope.within tags.params) (.content children) := by
  rw [rule.rewrite_element, Prod.mk.injEq, Nat.add_eq_zero_iff] at stays
  obtain ⟨same, count, countHere⟩ := stays
  have here := replace?_of_replaced countHere
  rw [Rule.replaced_of_none scope here] at same
  obtain ⟨-, sameChildren⟩ := Statement.element.inj same
  rw [sameChildren] at here
  exact ⟨here, kept_of_body (Prod.ext sameChildren count)⟩

theorem kept_program {tags : BlockTags} {program : List Statement} {params : List String}
    {chained : Bool} {inverse : Option Program}
    (walked : rule.leaves (.block tags ⟨program, params, chained⟩ inverse) = false)
    (stays : rule.rewrite scope (.block tags ⟨program, params, chained⟩ inverse) =
      (.block tags ⟨program, params, chained⟩ inverse, 0)) :
    rule.replace? scope (.block tags ⟨program, params, chained⟩ inverse) = none ∧
      Kept rule (scope.within params) (.content program) ∧
      Kept rule scope (.inverse tags inverse) := by
  rw [rule.rewrite_block scope walked, Prod.mk.injEq, Nat.add_eq_zero_iff,
    Nat.add_eq_zero_iff] at stays
  obtain ⟨same, ⟨count, countOthers⟩, countHere⟩ := stays
  have here := replace?_of_replaced countHere
  rw [Rule.replaced_of_none scope here] at same
  obtain ⟨-, sameProgram, sameOthers⟩ := Statement.block.inj same
  obtain ⟨sameBody, -, -⟩ := Program.mk.inj sameProgram
  rw [sameBody, sameOthers] at here
  exact ⟨here, kept_of_body (Prod.ext sameBody count),
    kept_of_inverse (Prod.ext sameOthers countOthers)⟩

theorem kept_block {tags : BlockTags} {program : List Statement} {params : List String}
    {chained : Bool} {inverse : Option Program}
    (walked : rule.leaves (.block tags ⟨program, params, chained⟩ inverse) = false)
    (stays : rule.replace? scope (.block tags ⟨program, params, chained⟩ inverse) = none)
    (inside : Kept rule (scope.within params) (.content program))
    (behind : Kept rule scope (.inverse tags inverse)) :
    Kept rule scope (.content [.block tags ⟨program, params, chained⟩ inverse]) := by
  refine kept_single ?_
  rw [rule.rewrite_block scope walked, kept_content inside, kept_inverse behind]
  simp only [Rule.replaced_of_none scope stays]

theorem kept_elseBody {tags : BlockTags} {body : List Statement} {params : List String} :
    Kept rule scope (.inverse tags (some ⟨body, params, false⟩)) ↔
      Kept rule (scope.within params) (.content body) := by
  constructor
  · intro kept
    have same := kept_inverse kept
    rw [rule.rewriteInverse_else, Prod.mk.injEq, Option.some.injEq, Program.mk.injEq] at same
    exact kept_of_body (Prod.ext same.1.1 same.2)
  · intro kept
    refine kept_of_inverse ?_
    rw [rule.rewriteInverse_else, kept_content kept]

theorem kept_elseBlock {tags chained : BlockTags} {program : List Statement}
    {params bound : List String} {continued : Bool} {inverse : Option Program} :
    Kept rule scope
        (.inverse tags (some ⟨[.block chained ⟨program, params, continued⟩ inverse], bound, true⟩)) ↔
      Kept rule (scope.within params) (.content program) ∧
        Kept rule scope (.inverse chained inverse) := by
  constructor
  · intro kept
    have same := kept_inverse kept
    rw [rule.rewriteInverse_chain, Prod.mk.injEq, Option.some.injEq, Program.mk.injEq,
      List.cons.injEq, Statement.block.injEq, Program.mk.injEq, Nat.add_eq_zero_iff] at same
    obtain ⟨⟨⟨⟨-, ⟨sameBody, -, -⟩, sameOthers⟩, -⟩, -, -⟩, count, countOthers⟩ := same
    exact ⟨kept_of_body (Prod.ext sameBody count),
      kept_of_inverse (Prod.ext sameOthers countOthers)⟩
  · rintro ⟨kept, keptOthers⟩
    refine kept_of_inverse ?_
    rw [rule.rewriteInverse_chain, kept_content kept, kept_inverse keptOthers]
    rfl

/-- Of a phrase that is kept, the rule would replace nothing, whatever is replaced around it. -/
theorem replace?_of_kept (walks : ∀ statement, rule.leaves statement = false) {phrase : Phrase}
    (regular : Regular phrase) : ∀ scope, Kept rule scope phrase →
    ∀ occurrence ∈ phrase.occurrences scope,
      rule.replace? occurrence.scope occurrence.statement = none := by
  induction regular with
  | nil =>
    intro scope kept
    rw [Phrase.occurrences, bodyOccurrences]
    exact List.forall_mem_nil _
  | @leaf statement body isLeaf more inMore =>
    intro scope kept
    obtain ⟨stays, keptMore⟩ := kept_uncons kept
    rw [rule.rewrite_leaf scope isLeaf] at stays
    refine forall_bodyOccurrences_cons.mpr
      ⟨replace?_of_replaced (congrArg Prod.snd stays), ?_, inMore scope keptMore⟩
    cases statement <;> first | exact List.forall_mem_nil _ | cases isLeaf
  | element content more inContent inMore =>
    intro scope kept
    obtain ⟨stays, keptMore⟩ := kept_uncons kept
    obtain ⟨here, keptInside⟩ := kept_children stays
    refine forall_bodyOccurrences_cons.mpr ⟨here, ?_, inMore scope keptMore⟩
    rw [Statement.occurrences]
    exact inContent _ keptInside
  | block content others more inContent inOthers inMore =>
    intro scope kept
    obtain ⟨stays, keptMore⟩ := kept_uncons kept
    obtain ⟨here, keptInside, keptBehind⟩ := kept_program (walks _) stays
    refine forall_bodyOccurrences_cons.mpr ⟨here, ?_, inMore scope keptMore⟩
    rw [Statement.occurrences, Program.occurrences, List.forall_mem_append]
    exact ⟨inContent _ keptInside, inOthers scope keptBehind⟩
  | noInverse =>
    intro scope kept
    rw [Phrase.occurrences, inverseOccurrences]
    exact List.forall_mem_nil _
  | elseBody content inContent =>
    intro scope kept
    rw [Phrase.occurrences, inverseOccurrences]
    exact inContent _ (kept_elseBody.mp kept)
  | elseBlock content others inContent inOthers =>
    intro scope kept
    obtain ⟨keptInside, keptBehind⟩ := kept_elseBlock.mp kept
    rw [Phrase.occurrences, inverseOccurrences_chain, List.forall_mem_append]
    exact ⟨inContent _ keptInside, inOthers scope keptBehind⟩

/-- A phrase in which the rule would replace nothing is kept. -/
theorem kept_of_replace? (walks : ∀ statement, rule.leaves statement = false) {phrase : Phrase}
    (regular : Regular phrase) : ∀ scope,
    (∀ occurrence ∈ phrase.occurrences scope,
      rule.replace? occurrence.scope occurrence.statement = none) → Kept rule scope phrase := by
  induction regular with
  | nil =>
    intro scope _
    rw [Kept, Rule.rewritePhrase, Rule.rewriteBody]
  | leaf isLeaf more keptMore =>
    intro scope stays
    obtain ⟨here, -, behind⟩ := forall_bodyOccurrences_cons.mp stays
    refine kept_cons (kept_single ?_) (keptMore scope behind)
    rw [rule.rewrite_leaf scope isLeaf, Rule.replaced_of_none scope here]
  | element content more keptContent keptMore =>
    intro scope stays
    obtain ⟨here, inside, behind⟩ := forall_bodyOccurrences_cons.mp stays
    rw [Statement.occurrences] at inside
    refine kept_cons (kept_single ?_) (keptMore scope behind)
    rw [rule.rewrite_element, kept_content (keptContent _ inside)]
    simp only [Rule.replaced_of_none scope here]
  | block content others more keptContent keptOthers keptMore =>
    intro scope stays
    obtain ⟨here, inside, behind⟩ := forall_bodyOccurrences_cons.mp stays
    rw [Statement.occurrences, Program.occurrences, List.forall_mem_append] at inside
    exact kept_cons (kept_block (walks _) here (keptContent _ inside.1) (keptOthers scope inside.2))
      (keptMore scope behind)
  | noInverse =>
    intro scope _
    exact kept_of_inverse (Rule.rewriteInverse.eq_1 rule scope)
  | elseBody content keptContent =>
    intro scope stays
    rw [Phrase.occurrences, inverseOccurrences] at stays
    exact kept_elseBody.mpr (keptContent _ stays)
  | elseBlock content others keptContent keptOthers =>
    intro scope stays
    rw [Phrase.occurrences, inverseOccurrences_chain, List.forall_mem_append] at stays
    exact kept_elseBlock.mpr ⟨keptContent _ stays.1, keptOthers scope stays.2⟩

end Left

end Reader

/-! ### Reading what was migrated -/

section Migrated

variable {source identity : String} {body : List Statement} {confirmed : List String}

/-- Over a template that was read and holds no conditionals, migrating is the plain recursion. -/
theorem Template.migrate_of_unprobed (confirmed : List String)
    (spelling : Reader.Spelling none 0 source.toList (.content body))
    (unprobed : (⟨identity, source, body⟩ : Template).Unprobed) :
    (⟨identity, source, body⟩ : Template).migrate confirmed =
      ⟨⟨identity, source, ((TagForm.rule confirmed).rewriteBody .empty body).1⟩,
        ((TagForm.rule confirmed).rewriteBody .empty body).2⟩ := by
  rw [Template.migrate_of_spelling confirmed spelling,
    Phrase.content.inj (spelling.regular.strip_self unprobed)]

/-- What the joining rule makes of a template is what the rule makes of it, merged. -/
theorem rewriteBody_joined (confirmed : List String)
    (spelling : Reader.Spelling none 0 source.toList (.content body)) :
    (TagForm.joined confirmed).rewriteBody .empty body =
      (mergeBody ((TagForm.rule confirmed).rewriteBody .empty body).1,
        ((TagForm.rule confirmed).rewriteBody .empty body).2) := by
  have commutes := Reader.mergeCommutes_content.mp
    (Reader.mergeCommutes_of_regular spelling.regular confirmed .empty)
  rwa [Phrase.content.inj spelling.merge] at commutes

theorem Rule.walked_of_spelling {rule : Rule} (only : rule.OnInvocations)
    (spelling : Reader.Spelling none 0 source.toList (.content body)) :
    Walked rule (.content body) (.content (rule.rewriteBody .empty body).1) := by
  have same := congrArg (fun result => result.template.body)
    (@Rule.run_of_spelling source "" body rule only spelling)
  have walked := spelling.regular.walked rule .empty .empty
  rw [Phrase.walk, show (rule.walkBody .empty .empty body).1 = _ from same] at walked
  exact walked

/-- What the joining rule makes of a template without conditionals has nothing to be stripped. -/
theorem strip_joined (confirmed : List String)
    (spelling : Reader.Spelling none 0 source.toList (.content body))
    (unprobed : ∀ statement ∈ bodyStatements body, Probe.isConditional statement = false) :
    (Phrase.content ((TagForm.joined confirmed).rewriteBody .empty body).1).strip =
      .content ((TagForm.joined confirmed).rewriteBody .empty body).1 := by
  have walked := Rule.walked_of_spelling (TagForm.joined_onInvocations confirmed) spelling
  exact (walked.regular (TagForm.joined_keepsRegular confirmed)).strip_self
    (walked.unprobed (TagForm.joined_keepsUnprobed confirmed) unprobed)

/-- Merging does not show. -/
theorem Template.print_merge (regular : Regular (.content body)) :
    (⟨identity, source, mergeBody body⟩ : Template).print =
      (⟨identity, source, body⟩ : Template).print := by
  have same : printBody source.toList (mergeBody body) = printBody source.toList body :=
    regular.print_merge
  rw [Template.print, Template.print, same]

theorem Template.print_rewritten (confirmed : List String)
    (spelling : Reader.Spelling none 0 source.toList (.content body)) :
    (⟨identity, source, ((TagForm.joined confirmed).rewriteBody .empty body).1⟩ : Template).print =
      (⟨identity, source, ((TagForm.rule confirmed).rewriteBody .empty body).1⟩ : Template).print := by
  have walked := Rule.walked_of_spelling (TagForm.rule_onInvocations confirmed) spelling
  rw [rewriteBody_joined confirmed spelling]
  exact Template.print_merge (walked.regular (TagForm.rule_keepsRegular confirmed))

/-- The joining rule replaces what the rule replaces. -/
theorem migrated_of_kept (spelling : Reader.Spelling none 0 source.toList (.content body))
    (kept : Reader.Kept (TagForm.joined confirmed) .empty (.content body)) :
    (⟨identity, source, body⟩ : Template).Migrated confirmed := by
  intro occurrence member
  exact Option.map_eq_none_iff.mp (Reader.replace?_of_kept (fun _ => rfl) spelling.regular .empty
    kept occurrence member)

/-- A template in which the joining rule finds nothing to do is not changed by a migration. Being a
twin of a tree that has nothing to be stripped, it is migrated as if it were not stripped first. -/
theorem migrate_of_kept {text : String} {copy : List Statement}
    (spelled : Reader.Spelling none 0 text.toList (.content copy))
    (kept : Reader.Kept (TagForm.joined confirmed) .empty (.content copy))
    (twins : Twin source.toList text.toList (.content body) (.content copy))
    (stripped : (Phrase.content body).strip = .content body) :
    ((⟨identity, text, copy⟩ : Template).migrate confirmed).changes = 0 ∧
      ((⟨identity, text, copy⟩ : Template).migrate confirmed).template.print = .ok text := by
  have twinsStripped := twins.strip
  rw [stripped] at twinsStripped
  obtain ⟨rewritten, count⟩ := twins.rewrite confirmed .empty
  obtain ⟨rewrittenStripped, countStripped⟩ := twinsStripped.rewrite confirmed .empty
  have joined := rewriteBody_joined confirmed spelled
  rw [Reader.kept_content kept, Prod.mk.injEq] at joined
  have prints := @Template.print_rewritten _ identity _ confirmed spelled
  rw [Reader.kept_content kept, Template.print_of_spelling identity spelled] at prints
  obtain ⟨printed, left, right⟩ := @Template.exists_print_of_twin _ identity _ _ _ rewritten
  obtain ⟨again, leftAgain, rightAgain⟩ :=
    @Template.exists_print_of_twin _ identity _ _ _ rewrittenStripped
  rw [Template.migrate_of_spelling confirmed spelled]
  refine ⟨?_, ?_⟩
  · calc ((TagForm.rule confirmed).rewriteBody .empty (Probe.stripBody copy).1).2
      _ = ((TagForm.rule confirmed).rewriteBody .empty body).2 := countStripped.symm
      _ = ((TagForm.rule confirmed).rewriteBody .empty copy).2 := count
      _ = 0 := joined.2.symm
  · calc (⟨identity, text, ((TagForm.rule confirmed).rewriteBody .empty
          (Probe.stripBody copy).1).1⟩ : Template).print
      _ = .ok again := rightAgain
      _ = (⟨identity, source, ((TagForm.rule confirmed).rewriteBody .empty body).1⟩ :
          Template).print := leftAgain.symm
      _ = .ok printed := left
      _ = (⟨identity, text, ((TagForm.rule confirmed).rewriteBody .empty copy).1⟩ :
          Template).print := right.symm
      _ = .ok text := prints.symm

end Migrated

/-- The text of a migrated template is valid and final. If every argument of an invocation that
becomes a tag can be written as an attribute, it is read as the migrated tree up to spans, with
neighbouring texts merged. Nothing in what is read would become a tag, so migrating it changes
nothing and prints the same text. -/
theorem migrate_reread (source identity : String) (template : Template) (confirmed : List String)
    (read : Template.read source identity = .ok template) (unprobed : template.Unprobed)
    (fit : template.TagsFit confirmed) :
    ∃ text again, (template.migrate confirmed).template.print = .ok text ∧
      Template.read text identity = .ok again ∧
      mapBody eraseSpan again.body =
        mapBody eraseSpan (mergeBody (template.migrate confirmed).template.body) ∧
      again.Migrated confirmed ∧ (again.migrate confirmed).changes = 0 ∧
      (again.migrate confirmed).template.print = .ok text := by
  obtain ⟨body, rfl, spelling⟩ := Template.read_eq_ok.mp read
  obtain ⟨text, copy, spelled, twins, kept⟩ :=
    (Reader.respelling_joined confirmed source.toList).exists_reread spelling fit
  have final := @migrate_of_kept source identity _ _ _ _ spelled kept twins
    (strip_joined confirmed spelling unprobed)
  rw [Template.migrate_of_unprobed confirmed spelling unprobed]
  refine ⟨text, ⟨identity, text, copy⟩, ?_, Template.read_eq_ok.mpr ⟨copy, rfl, spelled⟩, ?_,
    migrated_of_kept spelled kept, final⟩
  · rw [← Template.print_rewritten confirmed spelling]
    exact Template.print_of_twin spelled twins
  · rw [rewriteBody_joined confirmed spelling] at twins
    exact twins.alike.symm

/-- A block whose content begins with text, around an inline tag, and one that stays. -/
def cardSource : String :=
  "<p>\x7b\x7b#panel-box t=x as |p|\x7d\x7d hi \x7b\x7buser-card a=(f 1)\x7d\x7d" ++
    "\x7b\x7b/panel-box\x7d\x7d\x7b\x7buser-card 1\x7d\x7d</p>"

/-- The text of it after the migration. -/
def cardText : String :=
  "<p><PanelBox @t=\x7b\x7bx\x7d\x7d as |p|>\n hi <UserCard @a=\x7b\x7b(f 1)\x7d\x7d />" ++
    "</PanelBox>\x7b\x7buser-card 1\x7d\x7d</p>"

/-- The names that are confirmed. -/
def cardNames : List String := ["panel-box", "user-card"]

theorem migrate_reread_cardSource : ∃ template again,
    Template.read cardSource "card.hbs" = .ok template ∧ template.Unprobed ∧
      template.TagsFit cardNames ∧ (template.migrate cardNames).changes = 2 ∧
      (template.migrate cardNames).template.print = .ok cardText ∧
      Template.read cardText "card.hbs" = .ok again ∧
      mapBody eraseSpan again.body =
        mapBody eraseSpan (mergeBody (template.migrate cardNames).template.body) ∧
      again.Migrated cardNames ∧ (again.migrate cardNames).changes = 0 ∧
      (again.migrate cardNames).template.print = .ok cardText := by
  have succeeds : ((Template.read cardSource "card.hbs").toOption.any fun template =>
      decide (template.Unprobed ∧ template.TagsFit cardNames ∧
        (template.migrate cardNames).changes = 2 ∧
        (template.migrate cardNames).template.print.toOption = some cardText)) = true := by
    decide +kernel
  obtain ⟨template, read, unprobed, fit, changes, prints⟩ := Template.exists_of_read succeeds
  obtain ⟨text, again, printed, stable⟩ :=
    migrate_reread cardSource "card.hbs" template cardNames read unprobed fit
  obtain rfl : text = cardText := by
    rw [printed] at prints
    exact Option.some.inj prints
  exact ⟨template, again, read, unprobed, fit, changes, printed, stable⟩

end TagMigration
