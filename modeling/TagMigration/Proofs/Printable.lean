/-
Trees stay printable. A pass clones, moves and replaces nodes without reading them again, so the
tree that a sequence of passes leaves has nodes that were read among nodes that were built. Every
span in it is still one that was read, because a pass puts no span into a node that had none;
a chained inverse is still one block; and an element that stands alone still has no children.
So the tree can be printed, whatever passes it went through.
-/
import TagMigration.Proofs.Pass.Walked
import TagMigration.Proofs.Reading.Cuts
import TagMigration.Proofs.Tiling

namespace TagMigration

/-! ### Intact nodes -/

/-- Whether an element is its start tag: it is self-closing, or it was read and is void. -/
def ElementTags.isAlone (tags : ElementTags) : Bool :=
  tags.selfClosing || (isVoidTag tags.tag && tags.span.isSome)

/-- The own spans of the statement cut the source, and an element that stands alone has no
children. -/
structure Statement.Intact (source : List Char) (statement : Statement) : Prop where
  cuts : AllCut source statement.ownSpans
  childless : ∀ tags children, statement = .element tags children → tags.isAlone = true →
    children = []

/-- All the nodes of a phrase are intact. -/
def Phrase.Intact (source : List Char) (phrase : Phrase) : Prop :=
  ∀ node ∈ phrase.nodes, node.statement.Intact source

section Intact

variable {source : List Char}

theorem intact_nil : (Phrase.content []).Intact source := by
  intro node member
  rw [Phrase.nodes, bodyNodes] at member
  cases member

theorem intact_cons {statement : Statement} {body : List Statement} :
    (Phrase.content (statement :: body)).Intact source ↔
      (statement.Intact source ∧ ∀ node ∈ statement.nodes, node.statement.Intact source) ∧
        (Phrase.content body).Intact source :=
  forall_bodyNodes_cons

theorem intact_append {first second : List Statement} :
    (Phrase.content (first ++ second)).Intact source ↔
      (Phrase.content first).Intact source ∧ (Phrase.content second).Intact source := by
  induction first with
  | nil => exact (and_iff_right intact_nil).symm
  | cons statement rest inductionHypothesis =>
    rw [List.cons_append, intact_cons, inductionHypothesis, intact_cons]
    exact and_assoc.symm

theorem intact_leaf {statement : Statement} (isLeaf : statement.isLeaf = true)
    {body : List Statement} :
    (Phrase.content (statement :: body)).Intact source ↔
      AllCut source statement.ownSpans ∧ (Phrase.content body).Intact source := by
  rw [intact_cons]
  refine and_congr_left fun _ => ⟨fun intact => intact.1.cuts, fun cuts => ⟨⟨cuts, ?_⟩, ?_⟩⟩
  · rintro tags children rfl
    cases isLeaf
  · intro node member
    cases statement with
    | block => cases isLeaf
    | element => cases isLeaf
    | _ =>
      rw [Statement.nodes] at member
      cases member

theorem intact_element {tags : ElementTags} {children body : List Statement} :
    (Phrase.content (.element tags children :: body)).Intact source ↔
      (AllCut source tags.spans ∧ (tags.isAlone = true → children = []) ∧
        (Phrase.content children).Intact source) ∧ (Phrase.content body).Intact source := by
  rw [intact_cons, Statement.nodes]
  refine and_congr_left fun _ => ⟨fun intact => ?_, fun intact => ?_⟩
  · obtain ⟨here, inside⟩ := intact
    exact ⟨here.cuts, here.childless _ _ rfl, inside⟩
  · obtain ⟨cuts, childless, inside⟩ := intact
    refine ⟨⟨cuts, fun found inner same => ?_⟩, inside⟩
    cases same
    exact childless

theorem intact_block {tags : BlockTags} {program body : List Statement} {params : List String}
    {chained : Bool} {inverse : Option Program} :
    (Phrase.content (.block tags ⟨program, params, chained⟩ inverse :: body)).Intact source ↔
      (AllCut source tags.spans ∧ (Phrase.content program).Intact source ∧
        (Phrase.inverse tags inverse).Intact source) ∧ (Phrase.content body).Intact source := by
  rw [intact_cons, Statement.nodes, List.forall_mem_append]
  exact and_congr_left fun _ => and_congr_left fun _ =>
    ⟨Statement.Intact.cuts, fun cuts => ⟨cuts, fun _ _ same => Statement.noConfusion same⟩⟩

theorem intact_noInverse {tags : BlockTags} : (Phrase.inverse tags none).Intact source := by
  intro node member
  rw [Phrase.nodes, inverseNodes] at member
  cases member

theorem intact_elseBody {tags : BlockTags} {body : List Statement} {params : List String} :
    (Phrase.inverse tags (some ⟨body, params, false⟩)).Intact source ↔
      (Phrase.content body).Intact source := by
  rw [Phrase.Intact, Phrase.nodes, inverseNodes]
  rfl

/-- The block of a chained `else` is intact as any other block is. -/
theorem intact_elseBlock {tags chained : BlockTags} {program : List Statement}
    {params bound : List String} {continued : Bool} {inverse : Option Program} :
    (Phrase.inverse tags
      (some ⟨[.block chained ⟨program, params, continued⟩ inverse], bound, true⟩)).Intact source ↔
      AllCut source chained.spans ∧ (Phrase.content program).Intact source ∧
        (Phrase.inverse chained inverse).Intact source := by
  have asContent := @intact_block source chained program [] params continued inverse
  rw [and_iff_left intact_nil, intact_cons, and_iff_left intact_nil] at asContent
  rw [Phrase.Intact, Phrase.nodes, inverseNodes, forall_bodyNodes_cons, ← asContent]
  refine and_iff_left fun node member => ?_
  rw [bodyNodes] at member
  cases member

end Intact

/-! ### Stripping -/

/-- What stripping leaves was there before. -/
theorem Regular.intact_strip {source : List Char} {phrase : Phrase} (regular : Regular phrase)
    (intact : phrase.Intact source) : phrase.strip.Intact source := by
  induction regular with
  | nil =>
    rw [Phrase.strip, Probe.stripBody_nil]
    exact intact_nil
  | leaf isLeaf more stripMore =>
    rw [intact_leaf isLeaf] at intact
    rw [Phrase.strip, Probe.stripBody_leaf isLeaf, intact_leaf isLeaf]
    exact ⟨intact.1, stripMore intact.2⟩
  | element content more stripChildren stripMore =>
    rw [intact_element] at intact
    obtain ⟨⟨cuts, childless, inside⟩, further⟩ := intact
    rw [Phrase.strip, Probe.stripBody_element, intact_element]
    refine ⟨⟨cuts, fun alone => ?_, stripChildren inside⟩, stripMore further⟩
    rw [childless alone, Probe.stripBody_nil]
  | @block tags program body params chained inverse content others more stripProgram stripOthers
      stripMore =>
    rw [intact_block] at intact
    obtain ⟨⟨cuts, inside, behind⟩, further⟩ := intact
    cases found : Probe.isWrapper tags ⟨program, params, chained⟩ inverse with
    | true =>
      rw [Phrase.strip, Probe.stripBody_wrapper found, intact_append]
      exact ⟨stripProgram inside, stripMore further⟩
    | false =>
      rw [Phrase.strip, Probe.stripBody_block found, intact_block]
      exact ⟨⟨cuts, stripProgram inside, stripOthers behind⟩, stripMore further⟩
  | noInverse =>
    rw [Phrase.strip, Probe.stripInverse]
    exact intact_noInverse
  | elseBody content stripBody =>
    rw [intact_elseBody] at intact
    rw [Phrase.strip, Probe.stripInverse_else, intact_elseBody]
    exact stripBody intact
  | elseBlock content others stripProgram stripOthers =>
    rw [intact_elseBlock] at intact
    obtain ⟨cuts, inside, behind⟩ := intact
    rw [Phrase.strip, Probe.stripInverse_chain, intact_elseBlock]
    exact ⟨cuts, stripProgram inside, stripOthers behind⟩

/-! ### Walking -/

section Walk

variable {source : List Char} {rule : Rule}

/-- A rule that puts intact content in place of intact content. -/
def Rule.KeepsIntact (source : List Char) (rule : Rule) : Prop :=
  ∀ scope statement replacement, rule.replace? scope statement = some replacement →
    (Phrase.content [statement]).Intact source → (Phrase.content [replacement]).Intact source

theorem Settled.intact {statement settled : Statement} (keeps : rule.KeepsIntact source)
    (becomes : Settled rule statement settled) (intact : (Phrase.content [statement]).Intact source) :
    (Phrase.content [settled]).Intact source := by
  cases becomes with
  | stays => exact intact
  | replaced replaces => exact keeps _ _ _ replaces intact

/-- The statement of a body that was settled, in front of the others. -/
theorem Settled.intact_cons {statement settled : Statement} {after : List Statement}
    (keeps : rule.KeepsIntact source) (becomes : Settled rule statement settled)
    (intact : (Phrase.content (statement :: after)).Intact source) :
    (Phrase.content (settled :: after)).Intact source := by
  rw [← List.singleton_append, intact_append] at intact ⊢
  exact ⟨becomes.intact keeps intact.1, intact.2⟩

/-- What a walk makes of an intact phrase is intact. -/
theorem Walked.intact {phrase after : Phrase} (keeps : rule.KeepsIntact source)
    (walked : Walked rule phrase after) (intact : phrase.Intact source) : after.Intact source := by
  induction walked with
  | nil => exact intact
  | leaf isLeaf becomes _ walkMore =>
    rw [intact_leaf isLeaf] at intact
    exact becomes.intact_cons keeps ((intact_leaf isLeaf).mpr ⟨intact.1, walkMore intact.2⟩)
  | element content becomes _ walkChildren walkMore =>
    rw [intact_element] at intact
    obtain ⟨⟨cuts, childless, inside⟩, further⟩ := intact
    refine becomes.intact_cons keeps
      (intact_element.mpr ⟨⟨cuts, fun alone => ?_, walkChildren inside⟩, walkMore further⟩)
    rw [← List.length_eq_zero_iff, content.length, childless alone, List.length_nil]
  | left _ _ walkMore =>
    rw [intact_cons] at intact ⊢
    exact ⟨intact.1, walkMore intact.2⟩
  | block _ _ becomes _ walkProgram walkBehind walkMore =>
    rw [intact_block] at intact
    obtain ⟨⟨cuts, inside, behind⟩, further⟩ := intact
    exact becomes.intact_cons keeps (intact_block.mpr
      ⟨⟨cuts, walkProgram inside, walkBehind behind⟩, walkMore further⟩)
  | noInverse => exact intact
  | elseBody _ walkBody =>
    rw [intact_elseBody] at intact ⊢
    exact walkBody intact
  | elseBlock _ _ walkProgram walkBehind =>
    rw [intact_elseBlock] at intact ⊢
    exact ⟨intact.1, walkProgram intact.2.1, walkBehind intact.2.2⟩

theorem allCut_conditionalTags (name identity : String) (trim : Trim) :
    AllCut source (Probe.conditionalTags name identity trim).spans := by
  simp [Probe.conditionalTags, Probe.question, Build.path, Build.string, BlockTags.spans,
    Call.spans, Expression.spans, positionalSpans, namedSpans]

/-- A conditional has no span of its own, and the invocation twice. -/
theorem Probe.rule_keepsIntact (identity : String) : (Probe.rule identity).KeepsIntact source := by
  intro scope statement replacement replaces intact
  obtain ⟨name, -, rfl⟩ := Option.map_eq_some_iff.mp replaces
  show Phrase.Intact source
    (.content [.block _ ⟨[statement], [], false⟩ (some ⟨[statement], [], false⟩)])
  rw [intact_block, intact_elseBody]
  exact ⟨⟨allCut_conditionalTags _ _ _, intact, intact⟩, intact_nil⟩

theorem allCut_namedSpans {arguments : List NamedArgument} :
    AllCut source (namedSpans arguments) ↔
      ∀ argument ∈ arguments, AllCut source argument.spans := by
  induction arguments with
  | nil => simp [namedSpans]
  | cons argument rest inductionHypothesis =>
    rw [namedSpans, allCut_append, inductionHypothesis, List.forall_mem_cons]

/-- An attribute that stands for a named argument has the span of the value and no other. -/
theorem NamedArgument.allCut_toAttribute {argument : NamedArgument}
    (cuts : AllCut source argument.spans) : AllCut source argument.toAttribute.spans := by
  cases argument
  simp only [NamedArgument.spans, allCut_append] at cuts
  simp only [toAttribute, Build.mustache, Attribute.spans, AttributeValue.spans, Mustache.spans,
    Call.spans, positionalSpans, namedSpans, allCut_append, Option.toList_none, allCut_nil,
    true_and, and_true]
  exact cuts.2

theorem Call.allCut_toAttributes {call : Call} (cuts : AllCut source call.spans) :
    AllCut source (call.toAttributes.flatMap Attribute.spans) := by
  cases call
  rw [Call.spans, allCut_append, allCut_namedSpans] at cuts
  rw [toAttributes, allCut_flatMap, List.forall_mem_map]
  exact fun argument member => NamedArgument.allCut_toAttribute (cuts.2 argument member)

/-- A built element has the spans of the attributes that it was given. -/
theorem allCut_builtTags {tag : String} {call : Call} {params : List String} {selfClosing : Bool}
    (cuts : AllCut source call.spans) :
    AllCut source
      (⟨tag, call.toAttributes, [], params, selfClosing, none, none, none⟩ : ElementTags).spans := by
  simpa [ElementTags.spans] using Call.allCut_toAttributes cuts

/-- A tag takes over the values and the content of an invocation, and is self-closing only in place
of an inline one. -/
theorem TagForm.rule_keepsIntact (confirmed : List String) :
    (TagForm.rule confirmed).KeepsIntact source := by
  intro scope statement replacement replaces intact
  obtain ⟨tag, -, becomes⟩ := replace?_eq_some.mp replaces
  rcases element?_cases becomes with ⟨_, rfl, rfl⟩ | ⟨tags, body, params, chained, rfl, rfl⟩
  · rw [intact_leaf rfl, Statement.ownSpans, Mustache.spans, allCut_append] at intact
    exact intact_element.mpr
      ⟨⟨allCut_builtTags intact.1.2, fun _ => rfl, intact_nil⟩, intact_nil⟩
  · rw [intact_block] at intact
    obtain ⟨⟨cuts, inside, -⟩, further⟩ := intact
    simp only [BlockTags.spans, allCut_append] at cuts
    have content : (Phrase.content (Build.text "\n" :: body)).Intact source :=
      (intact_leaf rfl).mpr ⟨allCut_nil, inside⟩
    refine intact_element.mpr
      ⟨⟨allCut_builtTags cuts.1.1.1.1, fun alone => ?_, content⟩, further⟩
    simp [ElementTags.isAlone] at alone

end Walk

/-! ### Chained inverses -/

/-- The inverse of the statement, if it is chained, is one block. -/
def Statement.ChainsBlock (statement : Statement) : Prop :=
  ∀ tags program inverse, statement = .block tags program (some inverse) →
    inverse.chained = true → ∃ chained content others, inverse.body = [.block chained content others]

theorem chainsBlock_block {tags : BlockTags} {inverse : Option Program} (program : Program)
    (others : Regular (.inverse tags inverse)) :
    (Statement.block tags program inverse).ChainsBlock := by
  rintro _ _ inverse same chained
  cases same
  cases others with
  | elseBody => cases chained
  | elseBlock => exact ⟨_, _, _, rfl⟩

/-- In a regular phrase every chained inverse is one block. -/
theorem Regular.chainsBlock {phrase : Phrase} (regular : Regular phrase) :
    ∀ node ∈ phrase.nodes, node.statement.ChainsBlock := by
  induction regular with
  | nil =>
    intro node member
    rw [Phrase.nodes, bodyNodes] at member
    cases member
  | @leaf statement body isLeaf more inMore =>
    refine forall_bodyNodes_cons.mpr ⟨?_, inMore⟩
    cases statement with
    | block => cases isLeaf
    | element => cases isLeaf
    | _ => simp [Statement.nodes, Statement.ChainsBlock]
  | element content more inChildren inMore =>
    refine forall_bodyNodes_cons.mpr ⟨⟨fun _ _ _ same => Statement.noConfusion same, ?_⟩, inMore⟩
    rw [Statement.nodes]
    exact inChildren
  | block content others more inProgram inOthers inMore =>
    refine forall_bodyNodes_cons.mpr ⟨⟨chainsBlock_block _ others, ?_⟩, inMore⟩
    rw [Statement.nodes, List.forall_mem_append]
    exact ⟨inProgram, inOthers⟩
  | noInverse =>
    intro node member
    rw [Phrase.nodes, inverseNodes] at member
    cases member
  | elseBody content inBody =>
    rw [Phrase.nodes, inverseNodes]
    exact inBody
  | elseBlock content others inProgram inOthers =>
    rw [Phrase.nodes, inverseNodes, forall_bodyNodes_cons, Statement.nodes, List.forall_mem_append,
      bodyNodes]
    exact ⟨⟨chainsBlock_block _ others, inProgram, inOthers⟩, List.forall_mem_nil _⟩

/-! ### Runs of passes -/

/-- The passes over a template. -/
inductive TreePass where
  | instrument
  | strip
  | migrate (confirmed : List String)

/-- The template that a pass yields. -/
def TreePass.apply (template : Template) : TreePass → Template
  | .instrument => template.instrument.template
  | .strip => template.strip.template
  | .migrate confirmed => (template.migrate confirmed).template

/-- A template is printable if its tree is regular and all its nodes are intact. -/
structure Template.Printable (template : Template) : Prop where
  regular : Regular (.content template.body)
  intact : (Phrase.content template.body).Intact template.source.toList

theorem Template.Printable.strip {template : Template} (printable : template.Printable) :
    template.strip.template.Printable :=
  ⟨printable.regular.strip, printable.regular.intact_strip printable.intact⟩

theorem Template.Printable.run {template : Template} (printable : template.Printable) {rule : Rule}
    (keepsRegular : rule.KeepsRegular) (keepsIntact : rule.KeepsIntact template.source.toList) :
    (rule.run template).template.Printable :=
  have walked := printable.regular.walked rule .empty .empty
  ⟨walked.regular keepsRegular, walked.intact keepsIntact printable.intact⟩

/-- A pass keeps a template printable. -/
theorem TreePass.printable_apply {template : Template} (printable : template.Printable)
    (pass : TreePass) : (pass.apply template).Printable := by
  cases pass with
  | instrument => exact printable.run (Probe.rule_keepsRegular _) (Probe.rule_keepsIntact _)
  | strip => exact printable.strip
  | migrate confirmed =>
    exact printable.strip.run (TagForm.rule_keepsRegular _) (TagForm.rule_keepsIntact _)

/-- A pass changes the content of a template and nothing else. -/
theorem TreePass.apply_eq (template : Template) (pass : TreePass) :
    ∃ body, pass.apply template = ⟨template.identity, template.source, body⟩ := by
  cases pass <;> exact ⟨_, rfl⟩

/-- A run of passes keeps a template printable and changes nothing but its content. -/
theorem printable_foldl {template : Template} (printable : template.Printable)
    (passes : List TreePass) :
    (passes.foldl TreePass.apply template).Printable ∧
      ∃ body, passes.foldl TreePass.apply template = ⟨template.identity, template.source, body⟩ := by
  induction passes generalizing template with
  | nil => exact ⟨printable, template.body, rfl⟩
  | cons pass rest inductionHypothesis =>
    obtain ⟨keeps, body, isRest⟩ := inductionHypothesis (pass.printable_apply printable)
    obtain ⟨first, isFirst⟩ := pass.apply_eq template
    exact ⟨keeps, body, by rw [List.foldl_cons, isRest, isFirst]⟩

theorem Template.Printable.exists_print {template : Template} (printable : template.Printable) :
    ∃ text, template.print = .ok text := by
  obtain ⟨chars, printed⟩ := printable.regular.exists_print allCut_nil
    fun node member => (printable.intact node member).cuts
  rw [Phrase.print] at printed
  rw [Template.print, printed]
  exact ⟨_, rfl⟩

/-- What was read can be printed. -/
theorem Template.printable_of_read {source identity : String} {template : Template}
    (read : Template.read source identity = .ok template) : template.Printable := by
  have readFrom := Template.readFrom_of_read read
  obtain ⟨body, rfl, spelling⟩ := Template.read_eq_ok.mp read
  refine ⟨spelling.regular, fun node member => ⟨(readFrom node member).allCut, ?_⟩⟩
  have tiled := (readFrom node member).tiled
  obtain ⟨statement, chained⟩ := node
  rintro tags children rfl alone
  obtain ⟨span, startSpan, tiled⟩ := tiled
  refine (tiled.alone ?_).2.2
  rw [ElementTags.isAlone, Bool.or_eq_true, Bool.and_eq_true] at alone
  exact Bool.or_eq_true _ _ |>.mpr (alone.imp_right And.left)

/-- Whatever passes a template has gone through since it was read, all its spans cut its source,
every chained inverse is one block, an element that is self-closing, or void and was read, has no
children, the identity and the source are as they were, and the template can be printed. -/
theorem printable_after_passes (source identity : String) (template : Template)
    (passes : List TreePass) (read : Template.read source identity = .ok template) :
    let after := passes.foldl TreePass.apply template
    (∀ span ∈ after.spans, span.Cuts source.toList) ∧
      (∀ node ∈ after.nodes, ∀ tags program inverse,
        node.statement = .block tags program (some inverse) → inverse.chained = true →
          ∃ chained content others, inverse.body = [.block chained content others]) ∧
      (∀ node ∈ after.nodes, ∀ tags children, node.statement = .element tags children →
        tags.selfClosing = true ∨ isVoidTag tags.tag = true ∧ tags.span.isSome = true →
          children = []) ∧
      after.identity = identity ∧ after.source = source ∧ ∃ text, after.print = .ok text := by
  intro after
  obtain ⟨printable, body, isAfter⟩ := printable_foldl (Template.printable_of_read read) passes
  obtain ⟨_, rfl, -⟩ := Template.read_eq_ok.mp read
  have sameIdentity : after.identity = identity := congrArg Template.identity isAfter
  have sameSource : after.source = source := congrArg Template.source isAfter
  have intact : ∀ node ∈ after.nodes, node.statement.Intact source.toList := by
    rw [← sameSource]
    exact printable.intact
  refine ⟨?_, printable.regular.chainsBlock, fun node member tags children same alone => ?_,
    sameIdentity, sameSource, printable.exists_print⟩
  · exact allCut_flatMap.mpr fun node member => (intact node member).cuts
  · refine (intact node member).childless tags children same ?_
    rw [ElementTags.isAlone, Bool.or_eq_true, Bool.and_eq_true]
    exact alone

/-- A conditional that stands in the source, around an inline tag, in front of a block with a chained
`else` and a void element. -/
def chainedSource : String :=
  "\x7b\x7b#if (-probe-is-component \"a-b\" \"x\")\x7d\x7d\x7b\x7ba-b c=d\x7d\x7d" ++
    "\x7b\x7belse\x7d\x7d\x7b\x7ba-b c=d\x7d\x7d\x7b\x7b/if\x7d\x7d" ++
    "\x7b\x7b#e-f\x7d\x7d\x7b\x7ba-b c=d\x7d\x7d\x7b\x7belse a-b\x7d\x7d<br>\x7b\x7b/e-f\x7d\x7d"

theorem printable_after_passes_chainedSource : ∃ template,
    Template.read chainedSource "a.hbs" = .ok template ∧
      let after := [TreePass.instrument, .migrate ["a-b"], .instrument].foldl TreePass.apply template
      after.spans.length = 21 ∧ ∀ span ∈ after.spans, span.Cuts chainedSource.toList := by
  have succeeds : ((Template.read chainedSource "a.hbs").toOption.any fun template =>
      decide (([TreePass.instrument, .migrate ["a-b"], .instrument].foldl TreePass.apply
        template).spans.length = 21)) = true := by decide +kernel
  obtain ⟨template, read, many⟩ := Template.exists_of_read succeeds
  exact ⟨template, read, many, (printable_after_passes chainedSource "a.hbs" template
    [.instrument, .migrate ["a-b"], .instrument] read).1⟩

end TagMigration
