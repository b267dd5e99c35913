/-
The two phases of a migration. In the first, a template is instrumented and the application
runs the probes, in some order and as often as it likes; in the second, the names that it has
confirmed become tags. The probes ask about every name that the second phase could look
at, because both passes go through a template in the same way and under the same
scopes. So what comes out is what the registry of the application says.
-/
import TagMigration.Proofs.Instrumented
import TagMigration.Proofs.Telemetry.Recorded

namespace TagMigration

namespace Probe

/-! ### What is asked -/

/-- The name and the identity that a call on a probe is made with. -/
def arguments? (call : Call) : Option (String × String) :=
  match call.positional with
  | [.call ⟨_, [.literal (.string name) _, .literal (.string identity) _], _⟩ _] =>
    some (name, identity)
  | _ => none

/-- The name and the identity that a conditional asks about. -/
def asked? : Statement → Option (String × String)
  | .block tags program inverse =>
    if isWrapper tags program inverse then arguments? tags.call else none
  | .text _ => none
  | .mustache _ => none
  | .element .. => none
  | .comment _ => none
  | .curlyComment _ => none

theorem asked?_conditional (name identity : String) (statement : Statement) :
    asked? (conditional name identity statement) = some (name, identity) := by
  rw [conditional, asked?, isWrapper_conditionalTags]
  rfl

end Probe

/-- The names and identities that the conditionals of a template ask about, in document order. -/
def Template.questions (template : Template) : List (String × String) :=
  (bodyStatements template.body).filterMap Probe.asked?

/-- Two lists of names agree on every name that a conditional in the phrase asks about under the
identity. -/
def AgreeOnAsked (identity : String) (first second : List String) (phrase : Phrase) : Prop :=
  ∀ statement ∈ phrase.statements, ∀ name, Probe.asked? statement = some (name, identity) →
    (name ∈ first ↔ name ∈ second)

/-! ### Both passes look at the same names -/

theorem mem_bodyStatements_cons {statement other : Statement} {rest : List Statement} :
    other ∈ bodyStatements (statement :: rest) ↔
      other ∈ bodyStatements [statement] ∨ other ∈ bodyStatements rest := by
  simp [bodyStatements, or_assoc]

/-- What probing puts in place of a statement still holds it. -/
theorem Probe.mem_replaced (identity : String) (scope : Scope) {statement other : Statement}
    (member : other ∈ bodyStatements [statement]) :
    other ∈ bodyStatements [((Probe.rule identity).replaced scope statement).1] := by
  cases replaces : (Probe.rule identity).replace? scope statement with
  | none => rwa [Rule.replaced_of_none scope replaces]
  | some replacement =>
    rw [Rule.replaced_of_some scope replaces]
    obtain ⟨name, -, rfl⟩ := Option.map_eq_some_iff.mp replaces
    exact List.mem_cons_of_mem _ (List.mem_append_left _ (List.mem_append_left _ member))

section Agree

variable {first second : List String} {identity : String} {scope : Scope}

theorem AgreeOnAsked.subset {phrase part : Phrase} (agree : AgreeOnAsked identity first second phrase)
    (subset : ∀ statement ∈ part.statements, statement ∈ phrase.statements) :
    AgreeOnAsked identity first second part :=
  fun statement member => agree statement (subset statement member)

/-- An ambiguous invocation is asked about. -/
theorem mem_iff_of_ambiguous {statement : Statement} {name : String}
    (agree : AgreeOnAsked identity first second
      (.content [((Probe.rule identity).replaced scope statement).1]))
    (ambiguous : Probe.ambiguousName? scope statement = some name) :
    name ∈ first ↔ name ∈ second := by
  have replaces : (Probe.rule identity).replace? scope statement =
      some (Probe.conditional name identity statement) := by
    rw [Probe.rule]
    simp only [ambiguous, Option.map_some]
  rw [Rule.replaced_of_some scope replaces] at agree
  exact agree _ List.mem_cons_self name (Probe.asked?_conditional name identity statement)

theorem tag?_congr {statement : Statement}
    (same : ∀ name, Probe.ambiguousName? scope statement = some name →
      (name ∈ first ↔ name ∈ second)) :
    TagForm.tag? first scope statement = TagForm.tag? second scope statement := by
  simp only [TagForm.tag?]
  cases ambiguous : Probe.ambiguousName? scope statement with
  | none => rfl
  | some name =>
    have contained : first.contains name = second.contains name := by
      rw [Bool.eq_iff_iff, List.contains_iff_mem, List.contains_iff_mem, same name ambiguous]
    simp only [Option.bind_eq_bind, Option.bind_some, contained]

/-- What agrees on the names asked about replaces a statement alike. -/
theorem replaced_congr {statement : Statement}
    (same : ∀ name, Probe.ambiguousName? scope statement = some name →
      (name ∈ first ↔ name ∈ second)) :
    (TagForm.rule first).replaced scope statement =
      (TagForm.rule second).replaced scope statement := by
  simp only [Rule.replaced, TagForm.rule, tag?_congr same]

theorem rewriteBody_eq {left right : Rule} {body : List Statement}
    (same : left.rewritePhrase scope (.content body) = right.rewritePhrase scope (.content body)) :
    left.rewriteBody scope body = right.rewriteBody scope body := by
  rw [Rule.rewritePhrase, Rule.rewritePhrase, Prod.mk.injEq] at same
  exact Prod.ext (Phrase.content.inj same.1) same.2

theorem rewriteInverse_eq {left right : Rule} {tags : BlockTags} {others : Option Program}
    (same : left.rewritePhrase scope (.inverse tags others) =
      right.rewritePhrase scope (.inverse tags others)) :
    left.rewriteInverse scope others = right.rewriteInverse scope others := by
  rw [Rule.rewritePhrase, Rule.rewritePhrase, Prod.mk.injEq] at same
  exact Prod.ext (Phrase.inverse.inj same.1).2 same.2

/-- A statement in front of a body. -/
theorem rewrite_congr_cons {statement : Statement} {body : List Statement}
    (here : AgreeOnAsked identity first second
        (.content [((Probe.rule identity).rewrite scope statement).1]) →
      (TagForm.rule first).rewrite scope statement = (TagForm.rule second).rewrite scope statement)
    (more : AgreeOnAsked identity first second
        ((Probe.rule identity).rewritePhrase scope (.content body)).1 →
      (TagForm.rule first).rewritePhrase scope (.content body) =
        (TagForm.rule second).rewritePhrase scope (.content body))
    (agree : AgreeOnAsked identity first second
      ((Probe.rule identity).rewritePhrase scope (.content (statement :: body))).1) :
    (TagForm.rule first).rewritePhrase scope (.content (statement :: body)) =
      (TagForm.rule second).rewritePhrase scope (.content (statement :: body)) := by
  rw [Rule.rewritePhrase, Rule.rewriteBody_cons] at agree
  have sameHere := here (agree.subset fun other member =>
    mem_bodyStatements_cons.mpr (.inl member))
  have sameMore := rewriteBody_eq (more (agree.subset fun other member =>
    mem_bodyStatements_cons.mpr (.inr member)))
  rw [Rule.rewritePhrase, Rule.rewritePhrase, Rule.rewriteBody_cons, Rule.rewriteBody_cons,
    sameHere, sameMore]

/-- An element whose children are migrated alike. -/
theorem rewrite_congr_element {tags : ElementTags} {children : List Statement}
    (content : AgreeOnAsked identity first second
        ((Probe.rule identity).rewritePhrase (scope.within tags.params) (.content children)).1 →
      (TagForm.rule first).rewritePhrase (scope.within tags.params) (.content children) =
        (TagForm.rule second).rewritePhrase (scope.within tags.params) (.content children))
    (agree : AgreeOnAsked identity first second
      (.content [((Probe.rule identity).rewrite scope (.element tags children)).1])) :
    (TagForm.rule first).rewrite scope (.element tags children) =
      (TagForm.rule second).rewrite scope (.element tags children) := by
  rw [Rule.rewrite_element] at agree
  have inner := rewriteBody_eq (content (agree.subset fun other member =>
    Probe.mem_replaced identity scope (mem_statements_inside member)))
  have stays (names : List String) (children : List Statement) :=
    Rule.replaced_of_none scope
      (TagForm.rule_onInvocations names scope (.element tags children) rfl)
  rw [Rule.rewrite_element, Rule.rewrite_element, inner]
  simp only [stays]

/-- A block, other than a conditional, whose branches are migrated alike. -/
theorem rewrite_congr_block {tags : BlockTags} {program : List Statement} {params : List String}
    {chained : Bool} {inverse : Option Program}
    (isOther : Probe.isConditional (.block tags ⟨program, params, chained⟩ inverse) = false)
    (content : AgreeOnAsked identity first second
        ((Probe.rule identity).rewritePhrase (scope.within params) (.content program)).1 →
      (TagForm.rule first).rewritePhrase (scope.within params) (.content program) =
        (TagForm.rule second).rewritePhrase (scope.within params) (.content program))
    (others : AgreeOnAsked identity first second
        ((Probe.rule identity).rewritePhrase scope (.inverse tags inverse)).1 →
      (TagForm.rule first).rewritePhrase scope (.inverse tags inverse) =
        (TagForm.rule second).rewritePhrase scope (.inverse tags inverse))
    (agree : AgreeOnAsked identity first second
      (.content [((Probe.rule identity).rewrite scope
        (.block tags ⟨program, params, chained⟩ inverse)).1])) :
    (TagForm.rule first).rewrite scope (.block tags ⟨program, params, chained⟩ inverse) =
      (TagForm.rule second).rewrite scope (.block tags ⟨program, params, chained⟩ inverse) := by
  have walked : (Probe.rule identity).leaves
      (.block tags ⟨program, params, chained⟩ inverse) = false :=
    Bool.and_eq_false_iff.mpr (.inr isOther)
  rw [Rule.rewrite_block _ _ walked] at agree
  have inner := rewriteBody_eq (content (agree.subset fun other member =>
    Probe.mem_replaced identity scope (mem_statements_inside (List.mem_append_left _ member))))
  have outer := rewriteInverse_eq (others (agree.subset fun other member =>
    Probe.mem_replaced identity scope (mem_statements_inside (List.mem_append_right _ member))))
  rw [Rule.rewrite_block _ _ rfl, Rule.rewrite_block _ _ rfl, inner, outer]
  -- Whether a block is ambiguous does not depend on what it holds.
  have asked (name : String) := @mem_iff_of_ambiguous first second identity scope _ name agree
  have here (program : Program) (inverse : Option Program) :=
    @replaced_congr first second scope (.block tags program inverse) asked
  simp only [here]

end Agree

/-- Names that agree on all that probing asks about give the same migration. -/
theorem Regular.rewrite_congr {phrase : Phrase} (regular : Regular phrase) (identity : String)
    {first second : List String} :
    (∀ statement ∈ phrase.statements, Probe.isConditional statement = false) →
    ∀ scope, AgreeOnAsked identity first second
        ((Probe.rule identity).rewritePhrase scope phrase).1 →
      (TagForm.rule first).rewritePhrase scope phrase =
        (TagForm.rule second).rewritePhrase scope phrase := by
  induction regular with
  | nil =>
    intro _ scope _
    rw [Rule.rewritePhrase, Rule.rewritePhrase, Rule.rewriteBody, Rule.rewriteBody]
  | @leaf statement body isLeaf more sameMore =>
    intro unprobed scope
    obtain ⟨-, -, unprobedMore⟩ := forall_statements_cons.mp unprobed
    refine rewrite_congr_cons (fun agree => ?_) (sameMore unprobedMore scope)
    rw [Rule.rewrite_leaf _ _ isLeaf] at agree
    rw [Rule.rewrite_leaf _ _ isLeaf, Rule.rewrite_leaf _ _ isLeaf]
    exact replaced_congr fun name => mem_iff_of_ambiguous agree
  | @element tags children body content more sameChildren sameMore =>
    intro unprobed scope
    obtain ⟨-, unprobedChildren, unprobedMore⟩ := forall_statements_cons.mp unprobed
    exact rewrite_congr_cons (rewrite_congr_element (sameChildren unprobedChildren _))
      (sameMore unprobedMore scope)
  | @block tags program body params chained inverse content others more sameProgram sameOthers
      sameMore =>
    intro unprobed scope
    obtain ⟨isOther, unprobedProgram, unprobedOthers, unprobedMore⟩ :=
      forall_statements_block.mp unprobed
    exact rewrite_congr_cons
      (rewrite_congr_block isOther (sameProgram unprobedProgram _) (sameOthers unprobedOthers _))
      (sameMore unprobedMore scope)
  | noInverse =>
    intro _ scope _
    rw [Rule.rewritePhrase, Rule.rewritePhrase, Rule.rewriteInverse, Rule.rewriteInverse]
  | @elseBody tags body params content sameBody =>
    intro unprobed scope agree
    rw [Rule.rewritePhrase, Rule.rewriteInverse_else] at agree
    have inner := rewriteBody_eq (sameBody unprobed (scope.within params) agree)
    rw [Rule.rewritePhrase, Rule.rewritePhrase, Rule.rewriteInverse_else, Rule.rewriteInverse_else,
      inner]
  | @elseBlock tags chained program params bound continued inverse content others sameProgram
      sameOthers =>
    intro unprobed scope agree
    obtain ⟨unprobedProgram, unprobedOthers⟩ := forall_statements_chain.mp unprobed
    simp only [Rule.rewritePhrase, Rule.rewriteInverse_chain] at agree
    obtain ⟨agreeProgram, agreeOthers⟩ := forall_statements_chain.mp agree
    have inner := rewriteBody_eq (sameProgram unprobedProgram (scope.within params) agreeProgram)
    have outer := rewriteInverse_eq (sameOthers unprobedOthers scope agreeOthers)
    rw [Rule.rewritePhrase, Rule.rewritePhrase, Rule.rewriteInverse_chain,
      Rule.rewriteInverse_chain, inner, outer]

/-! ### Both phases -/

/-- The two phases together do what the registry says. Once all the probes of an instrumented
template have been run, in any order, any number of times and among any others, migrating it by what
was recorded is migrating the template itself by the registry. -/
theorem migrate_probed (source identity : String) (template : Template)
    (registry : List String) (calls : List (String × String))
    (read : Template.read source identity = .ok template) (unprobed : template.Unprobed)
    (run : ∀ question ∈ template.instrument.template.questions, question ∈ calls) :
    template.instrument.template.migrate
        (((Recorder.empty.probeAll registry calls).flush.1).confirmedFor template.identity) =
      template.migrate registry := by
  obtain ⟨body, rfl, spelling⟩ := Template.read_eq_ok.mp read
  have agree : AgreeOnAsked identity
      (((Recorder.empty.probeAll registry calls).flush.1).confirmedFor identity) registry
      ((Probe.rule identity).rewritePhrase .empty (.content body)).1 := by
    intro statement member name asked
    have question : (name, identity) ∈ calls := by
      refine run _ (List.mem_filterMap.mpr ⟨statement, ?_, asked⟩)
      rwa [Template.instrument,
        Rule.run_of_spelling (Probe.rule_onInvocations identity) spelling]
    rw [Recorder.mem_confirmedFor_probeAll]
    exact ⟨And.left, fun known => ⟨known, identity, question, rfl⟩⟩
  have same := rewriteBody_eq (spelling.regular.rewrite_congr identity unprobed .empty agree)
  rw [Template.migrate_instrument _ spelling.regular, Template.migrate_of_spelling _ spelling,
    Template.migrate_of_spelling _ spelling,
    Phrase.content.inj (spelling.regular.strip_self unprobed), same]

/-- A run of the probes of `panelSource`, out of order and with a repetition. -/
def panelCalls : List (String × String) :=
  [("user-card", quotedIdentity), ("panel-box", quotedIdentity), ("user-card", quotedIdentity)]

theorem migrate_probed_panelSource : ∃ template,
    Template.read panelSource quotedIdentity = .ok template ∧
      template.instrument.template.migrate
          (((Recorder.empty.probeAll ["user-card"] panelCalls).flush.1).confirmedFor
            template.identity) =
        template.migrate ["user-card"] := by
  have succeeds : ((Template.read panelSource quotedIdentity).toOption.any fun template =>
      decide (template.Unprobed ∧
        ∀ question ∈ template.instrument.template.questions, question ∈ panelCalls)) = true := by
    decide +kernel
  cases read : Template.read panelSource quotedIdentity with
  | error fault =>
    rw [read] at succeeds
    cases succeeds
  | ok template =>
    rw [read] at succeeds
    obtain ⟨unprobed, run⟩ := of_decide_eq_true succeeds
    exact ⟨template, rfl, migrate_probed panelSource quotedIdentity template ["user-card"]
      panelCalls read unprobed run⟩

end TagMigration
