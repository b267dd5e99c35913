/-
The text of an instrumented template. It is read again, as a twin of the instrumented tree,
whenever no name and no identity in it holds a backslash; and on that twin every pass does
what it does on the tree it is a twin of. So instrumenting twice is instrumenting once,
and taking the probes out of the text, or turning confirmed names into tags there, gives
what it gives on the template itself.
-/
import TagMigration.Proofs.Reading.Conditional

namespace TagMigration

/-- No invocation of the template has a backslash in its name. -/
def Template.PlainNames (template : Template) : Prop :=
  ∀ statement ∈ bodyStatements template.body, ∀ name ∈ statement.name?, '\\' ∉ name.toList

instance (template : Template) : Decidable template.PlainNames :=
  inferInstanceAs (Decidable (∀ statement ∈ bodyStatements template.body,
    ∀ name ∈ statement.name?, '\\' ∉ name.toList))

/-- No block of the template has the form of a conditional on a probe. -/
def Template.Unprobed (template : Template) : Prop :=
  ∀ statement ∈ bodyStatements template.body, Probe.isConditional statement = false

instance (template : Template) : Decidable template.Unprobed :=
  inferInstanceAs (Decidable (∀ statement ∈ bodyStatements template.body,
    Probe.isConditional statement = false))

/-! ### Passes over templates that were read -/

section Spelled

variable {source identity : String} {body : List Statement}

/-- Over a template that was read, a pass is the plain recursion. -/
theorem Rule.run_of_spelling {rule : Rule} (only : rule.OnInvocations)
    (spelling : Reader.Spelling none 0 source.toList (.content body)) :
    rule.run ⟨identity, source, body⟩ =
      ⟨⟨identity, source, (rule.rewriteBody .empty body).1⟩, (rule.rewriteBody .empty body).2⟩ :=
  Rule.run_eq only spelling.regular spelling.placed.known spelling.placed.distinct

/-- If what a rule does can be spelled, there is a text that is read as a twin of what it makes of a
template, and in the twin it finds nothing more to do. -/
theorem Reader.Respelling.exists_reread {rule : Rule} {fine : Occurrence → Prop}
    (respelling : Reader.Respelling rule source.toList fine)
    (spelling : Reader.Spelling none 0 source.toList (.content body))
    (isFine : ∀ occurrence ∈ bodyOccurrences .empty body, fine occurrence) :
    ∃ (text : String) (copy : List Statement),
      Reader.Spelling none 0 text.toList (.content copy) ∧
      Twin source.toList text.toList (.content (rule.rewriteBody .empty body).1) (.content copy) ∧
      Reader.Kept rule .empty (.content copy) := by
  obtain ⟨again, -, respells⟩ := spelling.respells respelling (stands_self _) .empty isFine
  obtain ⟨copy, spelled, twins, kept⟩ := respells 0
  refine ⟨String.ofList again, copy, ?_, ?_, kept⟩
  · rwa [String.toList_ofList]
  · rw [String.toList_ofList]
    exact twins again (stands_self again)

/-- What is printed of an instrumented template is read as a twin of it, and in the twin nothing is
left to be probed. -/
theorem exists_reread (spelling : Reader.Spelling none 0 source.toList (.content body))
    (plainIdentity : '\\' ∉ identity.toList)
    (plainNames : (⟨identity, source, body⟩ : Template).PlainNames) :
    ∃ (text : String) (copy : List Statement),
      Reader.Spelling none 0 text.toList (.content copy) ∧
      Twin source.toList text.toList
        (.content (⟨identity, source, body⟩ : Template).instrument.template.body)
        (.content copy) ∧
      Reader.Kept (Probe.rule identity) .empty (.content copy) := by
  rw [Template.instrument, Rule.run_of_spelling (Probe.rule_onInvocations identity) spelling]
  exact (Reader.respelling_probe plainIdentity source.toList).exists_reread spelling
    fun _ member => plainNames _ (spelling.regular.mem_statements member)

/-- Twins that were read and built print the same. -/
theorem Template.print_of_twin {text : String} {copy : List Statement}
    (spelled : Reader.Spelling none 0 text.toList (.content copy))
    (twins : Twin source.toList text.toList (.content body) (.content copy)) :
    (⟨identity, source, body⟩ : Template).print = .ok text := by
  obtain ⟨printed, left, right⟩ := twins.print
  have same : printed = text.toList :=
    Except.ok.inj (right.symm.trans (spelled.print (stands_self text.toList)))
  rw [same] at left
  exact (Template.print_of_body left).trans (congrArg Except.ok String.ofList_toList)

end Spelled

/-! ### Instrumenting twice -/

/-- Instrumenting is idempotent on texts. The text of an instrumented template is read under the
same identity, as the instrumented tree up to spans; instrumenting that changes nothing and prints
the same text. -/
theorem instrument_reread (source identity : String) (template : Template)
    (read : Template.read source identity = .ok template)
    (plainIdentity : '\\' ∉ identity.toList) (plainNames : template.PlainNames) :
    ∃ text again, template.instrument.template.print = .ok text ∧
      Template.read text identity = .ok again ∧
      mapBody eraseSpan again.body = mapBody eraseSpan template.instrument.template.body ∧
      again.instrument.changes = 0 ∧ again.instrument.template.print = .ok text := by
  obtain ⟨body, rfl, spelling⟩ := Template.read_eq_ok.mp read
  obtain ⟨text, copy, spelled, twins, kept⟩ := exists_reread spelling plainIdentity plainNames
  have once : (⟨identity, text, copy⟩ : Template).instrument = ⟨⟨identity, text, copy⟩, 0⟩ := by
    rw [Template.instrument, Rule.run_of_spelling (Probe.rule_onInvocations identity) spelled,
      Reader.kept_content kept]
  refine ⟨text, ⟨identity, text, copy⟩, Template.print_of_twin spelled twins,
    Template.read_eq_ok.mpr ⟨copy, rfl, spelled⟩, twins.alike.symm, ?_, ?_⟩
  · rw [once]
  · rw [once]
    exact Template.print_of_spelling identity spelled

/-- Nested invocations with `~` markers and a chained `else`. -/
def panelSource : String :=
  "\x7b\x7b~#panel-box t=1\x7d\x7d\x7b\x7buser-card\x7d\x7d" ++
    "\x7b\x7belse if x\x7d\x7d<p>\x7b\x7buser-card~\x7d\x7d</p>\x7b\x7b/panel-box~\x7d\x7d"

/-- An identity with both kinds of quotes. -/
def quotedIdentity : String := "it's \"a\".hbs"

theorem exists_read_panelSource : ∃ template,
    Template.read panelSource quotedIdentity = .ok template ∧ template.PlainNames ∧
      template.Unprobed := by
  have succeeds : ((Template.read panelSource quotedIdentity).toOption.any fun template =>
      decide (template.PlainNames ∧ template.Unprobed)) = true := by decide +kernel
  exact Template.exists_of_read succeeds

theorem instrument_reread_panelSource : ∃ template text again,
    Template.read panelSource quotedIdentity = .ok template ∧
      template.instrument.template.print = .ok text ∧
      Template.read text quotedIdentity = .ok again ∧
      mapBody eraseSpan again.body = mapBody eraseSpan template.instrument.template.body ∧
      again.instrument.changes = 0 ∧ again.instrument.template.print = .ok text := by
  obtain ⟨template, read, plainNames, -⟩ := exists_read_panelSource
  obtain ⟨text, again, stable⟩ :=
    instrument_reread panelSource quotedIdentity template read (by decide) plainNames
  exact ⟨template, text, again, read, stable⟩

/-! ### Stripping and migrating the text -/

section Stripped

variable {source identity : String} {body : List Statement}

/-- Migrating a template that was read is the plain recursion on what stripping leaves of it. -/
theorem Template.migrate_of_spelling (confirmed : List String)
    (spelling : Reader.Spelling none 0 source.toList (.content body)) :
    (⟨identity, source, body⟩ : Template).migrate confirmed =
      ⟨⟨identity, source,
          ((TagForm.rule confirmed).rewriteBody .empty (Probe.stripBody body).1).1⟩,
        ((TagForm.rule confirmed).rewriteBody .empty (Probe.stripBody body).1).2⟩ := by
  have left := spelling.regular.places_strip
  exact Rule.run_eq (TagForm.rule_onInvocations confirmed) spelling.regular.strip
    (fun member => spelling.placed.known (left.subset member)) (spelling.placed.distinct.sublist left)

/-- Stripping takes back what instrumenting has done. -/
theorem Template.stripBody_instrument (template : Template)
    (regular : Regular (.content template.body)) :
    (Probe.stripBody template.instrument.template.body).1 =
      (Probe.stripBody template.body).1 :=
  Phrase.content.inj (regular.strip_walk template.identity .empty .empty)

/-- Migrating looks through probes. -/
theorem Template.migrate_instrument (template : Template)
    (regular : Regular (.content template.body)) (confirmed : List String) :
    template.instrument.template.migrate confirmed = template.migrate confirmed := by
  have same := template.stripBody_instrument regular
  rw [Template.migrate, Template.migrate, Template.strip, Template.strip]
  simp only [same]
  rfl

theorem Template.exists_print_of_twin {text : String} {copy : List Statement}
    (twins : Twin source.toList text.toList (.content body) (.content copy)) :
    ∃ printed, (⟨identity, source, body⟩ : Template).print = .ok printed ∧
      (⟨identity, text, copy⟩ : Template).print = .ok printed := by
  obtain ⟨printed, left, right⟩ := twins.print
  exact ⟨String.ofList printed, Template.print_of_body left, Template.print_of_body right⟩

end Stripped

/-- Nothing is lost by going through the text of an instrumented template. What stripping and
migrating make of the template that is read from that text prints as what they make of the template
itself, with as many changes; and stripping a template without conditionals gives its source. -/
theorem strip_migrate_reread (source identity : String) (template : Template)
    (confirmed : List String) (read : Template.read source identity = .ok template)
    (plainIdentity : '\\' ∉ identity.toList) (plainNames : template.PlainNames) :
    ∃ text again, template.instrument.template.print = .ok text ∧
      Template.read text identity = .ok again ∧
      (∃ stripped, template.strip.template.print = .ok stripped ∧
        again.strip.template.print = .ok stripped ∧
        (template.Unprobed → stripped = source)) ∧
      (∃ migrated, (template.migrate confirmed).template.print = .ok migrated ∧
        (again.migrate confirmed).template.print = .ok migrated) ∧
      (again.migrate confirmed).changes = (template.migrate confirmed).changes := by
  obtain ⟨body, rfl, spelling⟩ := Template.read_eq_ok.mp read
  obtain ⟨text, copy, spelled, twins, -⟩ := exists_reread spelling plainIdentity plainNames
  have stripped : Twin source.toList text.toList (.content (Probe.stripBody body).1)
      (.content (Probe.stripBody copy).1) := by
    have twinsStripped := twins.strip
    rw [Phrase.strip, Template.stripBody_instrument _ spelling.regular] at twinsStripped
    exact twinsStripped
  obtain ⟨rewritten, sameCount⟩ := stripped.rewrite confirmed .empty
  refine ⟨text, ⟨identity, text, copy⟩, Template.print_of_twin spelled twins,
    Template.read_eq_ok.mpr ⟨copy, rfl, spelled⟩, ?_, ?_, ?_⟩
  · obtain ⟨printed, left, right⟩ := @Template.exists_print_of_twin _ identity _ _ _ stripped
    refine ⟨printed, left, right, fun unprobed => ?_⟩
    have same := Phrase.content.inj (spelling.regular.strip_self unprobed)
    rw [same, Template.print_of_spelling identity spelling] at left
    exact (Except.ok.inj left).symm
  · rw [Template.migrate_of_spelling confirmed spelling,
      Template.migrate_of_spelling confirmed spelled]
    exact Template.exists_print_of_twin rewritten
  · rw [Template.migrate_of_spelling confirmed spelling,
      Template.migrate_of_spelling confirmed spelled]
    exact sameCount.symm

theorem strip_migrate_reread_panelSource : ∃ template text again,
    Template.read panelSource quotedIdentity = .ok template ∧
      template.instrument.template.print = .ok text ∧
      Template.read text quotedIdentity = .ok again ∧
      again.strip.template.print = .ok panelSource ∧
      (∃ migrated, (template.migrate ["user-card"]).template.print = .ok migrated ∧
        (again.migrate ["user-card"]).template.print = .ok migrated) ∧
      (again.migrate ["user-card"]).changes = (template.migrate ["user-card"]).changes := by
  obtain ⟨template, read, plainNames, unprobed⟩ := exists_read_panelSource
  obtain ⟨text, again, prints, reads, ⟨stripped, -, right, isSource⟩, migrated⟩ :=
    strip_migrate_reread panelSource quotedIdentity template ["user-card"] read (by decide)
      plainNames
  rw [isSource unprobed] at right
  exact ⟨template, text, again, read, prints, reads, right, migrated⟩

end TagMigration
