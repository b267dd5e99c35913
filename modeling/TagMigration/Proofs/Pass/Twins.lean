/-
Passes do not look at spans. Whether a block is a conditional, whether an invocation is
ambiguous and whether it has a tag form is read off a tree up to its spans. So stripping twins
gives twins, and turning confirmed invocations into tags gives twins again, with as many
changes on either side.
-/
import TagMigration.Proofs.Pass.Stripping
import TagMigration.Proofs.Tree.Twin

namespace TagMigration

/-! ### Decisions -/

section Decisions

variable (change : Option Span → Option Span)

theorem Probe.isQuestion_mapSpans (expression : Expression) :
    isQuestion (expression.mapSpans change) = isQuestion expression := by
  cases expression with
  | call call span => simp [Expression.mapSpans, isQuestion]
  | _ => rfl

theorem Probe.asks_mapSpans (call : Call) : asks (call.mapSpans change) = asks call := by
  obtain ⟨callee, positional, named⟩ := call
  rcases positional with _ | ⟨first, _ | ⟨second, rest⟩⟩
  · rfl
  · simp [asks, Call.mapSpans, mapPositional, Probe.isQuestion_mapSpans]
  · rfl

theorem mapBody_length (body : List Statement) : (mapBody change body).length = body.length := by
  induction body with
  | nil => rfl
  | cons statement rest inductionHypothesis => exact congrArg (· + 1) inductionHypothesis

theorem Probe.isWrapper_mapSpans (tags : BlockTags) (program : Program)
    (inverse : Option Program) :
    isWrapper (tags.mapSpans change) (program.mapSpans change) (mapInverse change inverse) =
      isWrapper tags program inverse := by
  obtain ⟨program, params, chained⟩ := program
  rcases inverse with _ | ⟨body, bound, continued⟩
  · rfl
  · simp only [isWrapper, mapInverse, BlockTags.mapSpans, Program.mapSpans, Probe.asks_mapSpans,
      mapBody_length]

theorem Probe.isConditional_mapSpans (statement : Statement) :
    isConditional (statement.mapSpans change) = isConditional statement := by
  cases statement with
  | block tags program inverse => exact Probe.isWrapper_mapSpans change tags program inverse
  | _ => rfl

theorem Statement.isLeaf_mapSpans (statement : Statement) :
    (statement.mapSpans change).isLeaf = statement.isLeaf := by
  cases statement <;> rfl

theorem Statement.isNone_invocation?_mapSpans (statement : Statement) :
    (statement.mapSpans change).invocation?.isNone = statement.invocation?.isNone := by
  cases statement <;> rfl

theorem Probe.ambiguousName?_mapSpans (scope : Scope) (statement : Statement) :
    ambiguousName? scope (statement.mapSpans change) = ambiguousName? scope statement := by
  cases statement with
  | mustache tag =>
    simp only [ambiguousName?, Statement.mapSpans, Mustache.mapSpans, Statement.invocation?,
      Option.bind_some, Invocation.classify, Call.mapSpans_callee, Expression.name?_mapSpans]
  | block tags program inverse =>
    simp only [ambiguousName?, Statement.mapSpans, BlockTags.mapSpans, Statement.invocation?,
      Option.bind_some, Invocation.classify, Call.mapSpans_callee, Expression.name?_mapSpans]
  | _ => rfl

theorem TagForm.tag?_mapSpans (confirmed : List String) (scope : Scope) (statement : Statement) :
    tag? confirmed scope (statement.mapSpans change) = tag? confirmed scope statement := by
  simp only [tag?, Probe.ambiguousName?_mapSpans]
  cases statement with
  | mustache tag =>
    simp only [Statement.mapSpans, Mustache.mapSpans, Statement.invocation?, Option.bind_eq_bind,
      Option.bind_some, Call.mapSpans_positional, mapPositional_isEmpty, Invocation.isTrimmed]
    rfl
  | block tags program inverse =>
    simp only [Statement.mapSpans, BlockTags.mapSpans, Statement.invocation?, Option.bind_eq_bind,
      Option.bind_some, Call.mapSpans_positional, mapPositional_isEmpty, Invocation.isTrimmed]
    rfl
  | _ => rfl

end Decisions

/-- What is not looked at when spans are changed does not tell apart what is equal up to spans. -/
theorem eq_of_alike {Result : Type} {answer : Statement → Result}
    (blind : ∀ change statement, answer (statement.mapSpans change) = answer statement)
    {statement twin : Statement}
    (alike : statement.mapSpans eraseSpan = twin.mapSpans eraseSpan) :
    answer statement = answer twin := by
  rw [← blind eraseSpan, alike, blind]

/-! ### Stripping twins -/

section Twin

variable {source other : List Char} {phrase twin : Phrase}

/-- The first statements of two bodies that are alike are alike. -/
theorem Twin.alike_head {statement first : Statement} {body rest : List Statement}
    (twins : Twin source other (.content (statement :: body)) (.content (first :: rest))) :
    statement.mapSpans eraseSpan = first.mapSpans eraseSpan :=
  (List.cons.inj twins.alike).1

theorem Twin.strip (twins : Twin source other phrase twin) :
    Twin source other phrase.strip twin.strip := by
  induction twins with
  | nil => exact .nil
  | @plain statement copy body rest isLeaf isPlain alike prints more stripMore =>
    have copyLeaf : copy.isLeaf = true := by
      rw [← eq_of_alike Statement.isLeaf_mapSpans alike, isLeaf]
    rw [Phrase.strip, Phrase.strip, Probe.stripBody_leaf isLeaf, Probe.stripBody_leaf copyLeaf]
    exact .plain isLeaf isPlain alike prints stripMore
  | mustache alike attributes prints more stripMore =>
    rw [Phrase.strip, Phrase.strip, Probe.stripBody_leaf rfl, Probe.stripBody_leaf rfl]
    exact .mustache alike attributes prints stripMore
  | element alike start ending content more stripChildren stripMore =>
    rw [Phrase.strip, Phrase.strip, Probe.stripBody_element, Probe.stripBody_element]
    exact .element alike start ending stripChildren stripMore
  | @block tags copyTags program copy body rest params chained inverse others opens closes content
      inverses more stripProgram stripInverses stripMore =>
    have same : Probe.isWrapper tags ⟨program, params, chained⟩ inverse =
        Probe.isWrapper copyTags ⟨copy, params, chained⟩ others :=
      eq_of_alike Probe.isConditional_mapSpans
        (Twin.block opens closes content inverses more).alike_head
    cases found : Probe.isWrapper tags ⟨program, params, chained⟩ inverse with
    | true =>
      rw [Phrase.strip, Phrase.strip, Probe.stripBody_wrapper found,
        Probe.stripBody_wrapper (same ▸ found)]
      exact Twin.append stripProgram stripMore
    | false =>
      rw [Phrase.strip, Phrase.strip, Probe.stripBody_block found,
        Probe.stripBody_block (same ▸ found)]
      exact .block opens closes stripProgram stripInverses stripMore
  | noInverse => exact .noInverse
  | elseBody middle content stripBody =>
    rw [Phrase.strip, Phrase.strip, Probe.stripInverse_else, Probe.stripInverse_else]
    exact .elseBody middle stripBody
  | elseBlock opens content inverses stripProgram stripInverses =>
    rw [Phrase.strip, Phrase.strip, Probe.stripInverse_chain, Probe.stripInverse_chain]
    exact .elseBlock opens stripProgram stripInverses

/-! ### Rewriting twins -/

theorem Call.toAttributes_erase (call : Call) :
    call.toAttributes.map (Attribute.mapSpans eraseSpan) =
      (call.mapSpans eraseSpan).toAttributes := by
  obtain ⟨callee, positional, named⟩ := call
  simp only [Call.toAttributes, Call.mapSpans]
  induction named with
  | nil => rfl
  | cons argument rest inductionHypothesis =>
    obtain ⟨key, value, span⟩ := argument
    rw [mapNamed, List.map_cons, List.map_cons, List.map_cons, inductionHypothesis]
    rfl

/-- Tags that are built from named arguments which print the same. -/
theorem twin_element {call copy : Call} (alike : call.mapSpans eraseSpan = copy.mapSpans eraseSpan)
    (attributes : Agree (printAttributes source call.toAttributes)
      (printAttributes other copy.toAttributes))
    (tag : String) (params : List String) (selfClosing : Bool) {children others : List Statement}
    (content : Twin source other (.content children) (.content others))
    {body rest : List Statement} (more : Twin source other (.content body) (.content rest)) :
    Twin source other
      (.content (Build.element tag call.toAttributes params selfClosing children :: body))
      (.content (Build.element tag copy.toAttributes params selfClosing others :: rest)) := by
  obtain ⟨text, left, right⟩ := attributes
  refine .element ?_ ?_ (fun _ => ⟨_, rfl, rfl⟩) content more
  · simp only [ElementTags.mapSpans, Call.toAttributes_erase, alike]
  · exact ⟨_, ElementTags.printStart_built left .., ElementTags.printStart_built right ..⟩

section Replaced

variable (confirmed : List String) (scope : Scope)

/-- An inline tag and its twin are replaced alike. -/
theorem twin_replaced_mustache {tag copy : Mustache}
    (alike : tag.mapSpans eraseSpan = copy.mapSpans eraseSpan)
    (attributes : Agree (printAttributes source tag.call.toAttributes)
      (printAttributes other copy.call.toAttributes))
    (prints : Agree (tag.print source) (copy.print other)) {body rest : List Statement}
    (more : Twin source other (.content body) (.content rest)) :
    Twin source other
        (.content (((TagForm.rule confirmed).replaced scope (.mustache tag)).1 :: body))
        (.content (((TagForm.rule confirmed).replaced scope (.mustache copy)).1 :: rest)) ∧
      ((TagForm.rule confirmed).replaced scope (.mustache tag)).2 =
        ((TagForm.rule confirmed).replaced scope (.mustache copy)).2 := by
  have same : TagForm.tag? confirmed scope (.mustache tag) =
      TagForm.tag? confirmed scope (.mustache copy) :=
    eq_of_alike (fun change => TagForm.tag?_mapSpans change confirmed scope)
      (congrArg Statement.mustache alike)
  simp only [Rule.replaced, TagForm.rule]
  rw [← same]
  cases TagForm.tag? confirmed scope (.mustache tag) with
  | none => exact ⟨.mustache alike attributes prints more, rfl⟩
  | some name =>
    exact ⟨twin_element (congrArg Mustache.call alike) attributes name [] true .nil more, rfl⟩

/-- A block and its twin are replaced alike. -/
theorem twin_replaced_block {tags copyTags : BlockTags} {program copy : List Statement}
    {params : List String} {chained : Bool} {inverse others : Option Program}
    (opens : TwinTags source other params false tags copyTags)
    (closes : Agree (tags.printClose source) (copyTags.printClose other))
    (content : Twin source other (.content program) (.content copy))
    (inverses : Twin source other (.inverse tags inverse) (.inverse copyTags others))
    {body rest : List Statement} (more : Twin source other (.content body) (.content rest)) :
    Twin source other
        (.content (((TagForm.rule confirmed).replaced scope
          (.block tags ⟨program, params, chained⟩ inverse)).1 :: body))
        (.content (((TagForm.rule confirmed).replaced scope
          (.block copyTags ⟨copy, params, chained⟩ others)).1 :: rest)) ∧
      ((TagForm.rule confirmed).replaced scope (.block tags ⟨program, params, chained⟩ inverse)).2 =
        ((TagForm.rule confirmed).replaced scope
          (.block copyTags ⟨copy, params, chained⟩ others)).2 := by
  have stays : Twin source other (.content (.block tags ⟨program, params, chained⟩ inverse :: body))
      (.content (.block copyTags ⟨copy, params, chained⟩ others :: rest)) :=
    .block opens closes content inverses more
  have same := eq_of_alike (fun change => TagForm.tag?_mapSpans change confirmed scope)
    stays.alike_head
  simp only [Rule.replaced, TagForm.rule]
  rw [← same]
  cases TagForm.tag? confirmed scope (.block tags ⟨program, params, chained⟩ inverse) with
  | none => exact ⟨stays, rfl⟩
  | some name =>
    cases inverses with
    | noInverse =>
      have newline : Twin source other (.content (Build.text "\n" :: program))
          (.content (Build.text "\n" :: copy)) :=
        twin_text "\n" none none content
      exact ⟨twin_element (congrArg BlockTags.call opens.alike) opens.attributes name params false
        newline more, rfl⟩
    | elseBody => exact ⟨stays, rfl⟩
    | elseBlock => exact ⟨stays, rfl⟩

end Replaced

/-- A statement in front of a body. -/
theorem twin_rewrite_cons {rule : Rule} {scope : Scope} {statement copy : Statement}
    {body rest : List Statement}
    (first : ∀ {body rest : List Statement}, Twin source other (.content body) (.content rest) →
      Twin source other (.content ((rule.rewrite scope statement).1 :: body))
          (.content ((rule.rewrite scope copy).1 :: rest)) ∧
        (rule.rewrite scope statement).2 = (rule.rewrite scope copy).2)
    (more : Twin source other (rule.rewritePhrase scope (.content body)).1
        (rule.rewritePhrase scope (.content rest)).1 ∧
      (rule.rewritePhrase scope (.content body)).2 = (rule.rewritePhrase scope (.content rest)).2) :
    Twin source other (rule.rewritePhrase scope (.content (statement :: body))).1
        (rule.rewritePhrase scope (.content (copy :: rest))).1 ∧
      (rule.rewritePhrase scope (.content (statement :: body))).2 =
        (rule.rewritePhrase scope (.content (copy :: rest))).2 := by
  obtain ⟨twins, same⟩ := first more.1
  simp only [Rule.rewritePhrase, Rule.rewriteBody_cons]
  exact ⟨twins, congr (congrArg _ same) more.2⟩

/-- Twins stay twins when confirmed invocations become tags, and as many become tags. -/
theorem Twin.rewrite (twins : Twin source other phrase twin) (confirmed : List String) :
    ∀ scope, Twin source other ((TagForm.rule confirmed).rewritePhrase scope phrase).1
        ((TagForm.rule confirmed).rewritePhrase scope twin).1 ∧
      ((TagForm.rule confirmed).rewritePhrase scope phrase).2 =
        ((TagForm.rule confirmed).rewritePhrase scope twin).2 := by
  have only := TagForm.rule_onInvocations confirmed
  induction twins with
  | nil =>
    intro scope
    simp only [Rule.rewritePhrase, Rule.rewriteBody]
    exact ⟨.nil, trivial⟩
  | @plain statement copy body rest isLeaf isPlain alike prints more rewriteMore =>
    intro scope
    have copyLeaf : copy.isLeaf = true := by
      rw [← eq_of_alike Statement.isLeaf_mapSpans alike, isLeaf]
    have copyPlain : copy.invocation? = none := by
      rw [← Option.isNone_iff_eq_none, ← Statement.isNone_invocation?_mapSpans eraseSpan, ← alike,
        Statement.isNone_invocation?_mapSpans, isPlain]
      rfl
    refine twin_rewrite_cons (fun more => ?_) (rewriteMore scope)
    rw [Rule.rewrite_leaf _ _ isLeaf, Rule.rewrite_leaf _ _ copyLeaf,
      Rule.replaced_of_none _ (only scope statement isPlain),
      Rule.replaced_of_none _ (only scope copy copyPlain)]
    exact ⟨.plain isLeaf isPlain alike prints more, rfl⟩
  | @mustache tag copy body rest alike attributes prints more rewriteMore =>
    intro scope
    refine twin_rewrite_cons (fun more => ?_) (rewriteMore scope)
    have leaf (tag : Mustache) :=
      @Rule.rewrite_leaf (TagForm.rule confirmed) scope (.mustache tag) rfl
    rw [leaf, leaf]
    exact twin_replaced_mustache confirmed scope alike attributes prints more
  | @element tags copyTags children others body rest alike start ending content more
      rewriteChildren rewriteMore =>
    intro scope
    refine twin_rewrite_cons (fun more => ?_) (rewriteMore scope)
    have stays (tags : ElementTags) (children : List Statement) :=
      only scope (.element tags children) rfl
    have sameParams : copyTags.params = tags.params := (congrArg ElementTags.params alike.symm :)
    obtain ⟨twinsInner, sameInner⟩ := rewriteChildren (scope.within tags.params)
    rw [Rule.rewrite_element, Rule.rewrite_element, sameParams]
    simp only [Rule.replaced_of_none _ (stays _ _)]
    exact ⟨.element alike start ending twinsInner more, sameInner⟩
  | @block tags copyTags program copy body rest params chained inverse others opens closes content
      inverses more rewriteProgram rewriteInverses rewriteMore =>
    intro scope
    refine twin_rewrite_cons (fun more => ?_) (rewriteMore scope)
    obtain ⟨twinsInner, sameInner⟩ := rewriteProgram (scope.within params)
    obtain ⟨twinsOthers, sameOthers⟩ := rewriteInverses scope
    obtain ⟨twinsHere, same⟩ :=
      twin_replaced_block confirmed scope opens closes twinsInner twinsOthers more
    rw [Rule.rewrite_block _ _ rfl, Rule.rewrite_block _ _ rfl]
    refine ⟨twinsHere, ?_⟩
    simp only [Rule.rewritePhrase] at sameInner sameOthers
    simp only [sameInner, sameOthers, same]
  | noInverse =>
    intro scope
    simp only [Rule.rewritePhrase, Rule.rewriteInverse]
    exact ⟨.noInverse, trivial⟩
  | @elseBody tags copyTags body copy params middle content rewriteBody =>
    intro scope
    obtain ⟨twins, same⟩ := rewriteBody (scope.within params)
    simp only [Rule.rewritePhrase, Rule.rewriteInverse_else]
    exact ⟨.elseBody middle twins, same⟩
  | @elseBlock tags copyTags outer outerCopy program copy params bound chained inverse others opens
      content inverses rewriteProgram rewriteInverses =>
    intro scope
    obtain ⟨twinsInner, sameInner⟩ := rewriteProgram (scope.within params)
    obtain ⟨twinsOthers, sameOthers⟩ := rewriteInverses scope
    simp only [Rule.rewritePhrase, Rule.rewriteInverse_chain]
    exact ⟨.elseBlock opens twinsInner twinsOthers, congr (congrArg _ sameInner) sameOthers⟩

end Twin

end TagMigration
