/-
Passes that came before. Over a tree that is not printed and read in between, instrumenting again
walks into the conditionals of the last time, which have no place of their own, and probes one
of the two copies once more; so after a few passes the tree is deep and lopsided. None of
this is seen later: each pass keeps a tree regular and keeps what stripping leaves of it. So
stripping, and with it migrating, absorbs every sequence of passes.
-/
import TagMigration.Proofs.Instrumented
import TagMigration.Proofs.Pass.Walked

namespace TagMigration

/-! ### Sequences of passes -/

/-- A pass that puts probes into a template or takes them out. -/
inductive ProbePass where
  | instrument
  | strip
deriving DecidableEq, Repr

/-- The template that a pass makes of a template. -/
def ProbePass.apply (template : Template) : ProbePass → Template
  | .instrument => template.instrument.template
  | .strip => template.strip.template

/-- The template after a sequence of passes, each over the tree that the last one has left. -/
def Template.after (template : Template) (passes : List ProbePass) : Template :=
  passes.foldl ProbePass.apply template

/-- One pass keeps a template regular. -/
theorem ProbePass.regular_apply {template : Template} (regular : Regular (.content template.body)) :
    ∀ pass : ProbePass, Regular (.content (pass.apply template).body)
  | .instrument =>
    (regular.walked (Probe.rule template.identity) .empty .empty).regular
      (Probe.rule_keepsRegular template.identity)
  | .strip => regular.strip

/-- One pass keeps what stripping leaves. -/
theorem ProbePass.strip_apply {template : Template} (regular : Regular (.content template.body)) :
    ∀ pass : ProbePass, (pass.apply template).strip.template = template.strip.template
  | .instrument => by
    have same := template.stripBody_instrument regular
    simp only [apply, Template.strip, same]
    rfl
  | .strip => by
    have same := Phrase.content.inj regular.strip_strip
    simp only [apply, Template.strip, same]

theorem Template.strip_after {template : Template} (regular : Regular (.content template.body))
    (passes : List ProbePass) : (template.after passes).strip.template = template.strip.template := by
  induction passes generalizing template with
  | nil => rfl
  | cons pass rest inductionHypothesis =>
    have further := inductionHypothesis (pass.regular_apply regular)
    rw [pass.strip_apply regular] at further
    exact further

/-- Stripping and migrating absorb whatever probing and stripping came before: after any sequence of
these passes they give what they give on the template itself. -/
theorem strip_migrate_after (template : Template) (passes : List ProbePass)
    (confirmed : List String) (regular : Regular (.content template.body)) :
    (template.after passes).strip.template = template.strip.template ∧
      (template.after passes).migrate confirmed = template.migrate confirmed := by
  have same := Template.strip_after regular passes
  exact ⟨same, by rw [Template.migrate, Template.migrate, same]⟩

theorem strip_migrate_after_panelSource : ∃ template,
    Template.read panelSource quotedIdentity = .ok template ∧
      (template.after [.instrument]).instrument.changes = 3 ∧
      (template.after [.instrument, .instrument]).strip.template = template.strip.template ∧
      (template.after [.instrument, .instrument]).migrate ["user-card"] =
        template.migrate ["user-card"] := by
  have succeeds : ((Template.read panelSource quotedIdentity).toOption.any fun template =>
      decide ((template.after [.instrument]).instrument.changes = 3)) = true := by
    decide +kernel
  obtain ⟨template, read, changes⟩ := Template.exists_of_read succeeds
  obtain ⟨body, rfl, spelling⟩ := Template.read_eq_ok.mp read
  exact ⟨_, read, changes,
    strip_migrate_after _ [.instrument, .instrument] ["user-card"] spelling.regular⟩

end TagMigration
