/-
What stripping does to the form of a tree. A conditional in a body gives way to the content
of its first branch and everything else stays. So stripping a body is stripping its statements
one by one, what is left begins where it began, and a body without conditionals is left as it
is. A walk that probes changes nothing that stripping does not take back: a conditional that it
puts in is stripped to the statement it holds, and a conditional that it goes through is
still one.
-/
import TagMigration.Proofs.Pass.Plain

namespace TagMigration

/-- A phrase with its probes taken out. -/
def Phrase.strip : Phrase → Phrase
  | .content body => .content (Probe.stripBody body).1
  | .inverse tags others => .inverse tags (Probe.stripInverse others).1

namespace Probe

/-- Whether a statement has the form of a conditional, read or built. -/
def isConditional : Statement → Bool
  | .block tags program inverse => isWrapper tags program inverse
  | .text _ => false
  | .mustache _ => false
  | .element .. => false
  | .comment _ => false
  | .curlyComment _ => false

/-! ### Stripping, one step at a time -/

theorem stripBody_nil : stripBody [] = ([], 0) := by
  rw [stripBody]

theorem stripBody_leaf {statement : Statement} (isLeaf : statement.isLeaf = true)
    (rest : List Statement) :
    stripBody (statement :: rest) = (statement :: (stripBody rest).1, (stripBody rest).2) := by
  cases statement with
  | block => cases isLeaf
  | element => cases isLeaf
  | _ => simp [stripBody, stripInside]

theorem stripBody_element (tags : ElementTags) (children rest : List Statement) :
    stripBody (.element tags children :: rest) =
      (.element tags (stripBody children).1 :: (stripBody rest).1,
        (stripBody children).2 + (stripBody rest).2) := by
  simp [stripBody, stripInside]

section Block

variable {tags : BlockTags} {program : List Statement} {params : List String} {chained : Bool}
  {inverse : Option Program}

theorem stripBody_wrapper (found : isWrapper tags ⟨program, params, chained⟩ inverse = true)
    (rest : List Statement) :
    stripBody (.block tags ⟨program, params, chained⟩ inverse :: rest) =
      ((stripBody program).1 ++ (stripBody rest).1,
        (stripBody program).2 + (stripBody rest).2 + 1) := by
  simp [stripBody, stripProgram, found]

theorem stripBody_block (other : isWrapper tags ⟨program, params, chained⟩ inverse = false)
    (rest : List Statement) :
    stripBody (.block tags ⟨program, params, chained⟩ inverse :: rest) =
      (.block tags ⟨(stripBody program).1, params, chained⟩ (stripInverse inverse).1 ::
        (stripBody rest).1,
        (stripBody program).2 + (stripBody rest).2 + (stripInverse inverse).2) := by
  simp [stripBody, stripProgram, other]

theorem stripInverse_else (body : List Statement) :
    stripInverse (some ⟨body, params, false⟩) =
      (some ⟨(stripBody body).1, params, false⟩, (stripBody body).2) := by
  simp [stripInverse]

theorem stripInverse_chain (bound : List String) :
    stripInverse (some ⟨[.block tags ⟨program, params, chained⟩ inverse], bound, true⟩) =
      (some ⟨[.block tags ⟨(stripBody program).1, params, chained⟩ (stripInverse inverse).1],
        bound, true⟩, (stripBody program).2 + (stripInverse inverse).2) := by
  simp [stripInverse, stripChain, stripInside, stripProgram]

end Block

/-- A body is stripped statement by statement. -/
theorem stripBody_cons (statement : Statement) (rest : List Statement) :
    (stripBody (statement :: rest)).1 = (stripBody [statement]).1 ++ (stripBody rest).1 := by
  cases statement with
  | block tags program inverse =>
    obtain ⟨program, params, chained⟩ := program
    cases found : isWrapper tags ⟨program, params, chained⟩ inverse with
    | true => simp [stripBody_wrapper found, stripBody_nil]
    | false => simp [stripBody_block found, stripBody_nil]
  | element tags children => simp [stripBody_element, stripBody_nil]
  | _ =>
    rw [stripBody_leaf rfl, stripBody_leaf rfl, stripBody_nil]
    rfl

/-! ### What a probe adds is stripped -/

theorem isWrapper_conditionalTags (name identity : String) (trim : Trim)
    (first second : Statement) :
    isWrapper (conditionalTags name identity trim) (Build.program [first] [])
      (some (Build.program [second] [])) = true := by
  simp [isWrapper, asks, conditionalTags, question, isQuestion, Build.path, Build.program,
    Expression.name?]

theorem stripBody_conditional (name identity : String) (statement : Statement)
    (rest : List Statement) :
    (stripBody (conditional name identity statement :: rest)).1 =
      (stripBody (statement :: rest)).1 := by
  show (stripBody (.block _ ⟨[statement], [], false⟩ _ :: rest)).1 = _
  rw [stripBody_wrapper (isWrapper_conditionalTags ..), ← stripBody_cons]

/-- Settling a statement changes nothing for stripping. -/
theorem stripBody_settle (identity : String) (scope : Scope) (seen : Seen) (statement : Statement)
    (rest : List Statement) :
    (stripBody (((Probe.rule identity).settle scope seen statement).1 :: rest)).1 =
      (stripBody (statement :: rest)).1 := by
  unfold Rule.settle
  split
  · next replacement span replaces found =>
    split
    · rfl
    · obtain ⟨name, -, rfl⟩ := Option.map_eq_some_iff.mp replaces
      exact stripBody_conditional name identity statement rest
  · rfl

end Probe

section Walk

variable (rule : Rule) (scope : Scope) (seen : Seen)

theorem Rule.walkBody_length (body : List Statement) :
    (rule.walkBody scope seen body).1.length = body.length := by
  induction body generalizing seen with
  | nil => rw [Rule.walkBody]
  | cons statement rest inductionHypothesis =>
    rw [rule.walkBody_cons]
    exact congrArg (· + 1) (inductionHypothesis _)

/-- A conditional that is walked through stays one, and nothing else becomes one. -/
theorem Probe.isWrapper_walk (tags : BlockTags) (program : List Statement) (params : List String)
    (chained : Bool) (inverse : Option Program) (inner : Scope) (before : Seen) :
    isWrapper tags ⟨(rule.walkBody inner before program).1, params, chained⟩
      (rule.walkInverse scope seen inverse).1 = isWrapper tags ⟨program, params, chained⟩ inverse := by
  rcases inverse with _ | ⟨body, bound, _ | _⟩
  · rw [Rule.walkInverse]
    rfl
  · rw [rule.walkInverse_else]
    simp only [isWrapper, rule.walkBody_length]
  · rw [Rule.walkInverse]
    simp [isWrapper]

end Walk

/-- The phrase that a walk makes of a phrase. -/
def Phrase.walk (rule : Rule) (scope : Scope) (seen : Seen) : Phrase → Phrase
  | .content body => .content (rule.walkBody scope seen body).1
  | .inverse tags others => .inverse tags (rule.walkInverse scope seen others).1

/-- Stripping takes back what a walk that probes has done, whatever places it has seen. -/
theorem Regular.strip_walk {phrase : Phrase} (regular : Regular phrase) (identity : String) :
    ∀ scope seen, (phrase.walk (Probe.rule identity) scope seen).strip = phrase.strip := by
  induction regular with
  | nil =>
    intro scope seen
    rw [Phrase.walk, Rule.walkBody]
  | @leaf statement body isLeaf more stripMore =>
    intro scope seen
    have same := Phrase.content.inj (stripMore scope
      ((Probe.rule identity).settle scope seen statement).2)
    rw [Phrase.walk, Rule.walkBody_cons, Rule.walk_leaf _ _ _ isLeaf]
    simp only [Phrase.strip, Probe.stripBody_settle, Probe.stripBody_leaf isLeaf, same]
  | @element tags children body content more stripChildren stripMore =>
    intro scope seen
    have sameInner := Phrase.content.inj (stripChildren (scope.within tags.params) seen)
    have same (seen : Seen) := Phrase.content.inj (stripMore scope seen)
    rw [Phrase.walk, Rule.walkBody_cons, Rule.walk_element]
    simp only [Phrase.strip, Probe.stripBody_settle, Probe.stripBody_element, sameInner, same]
  | @block tags program body params chained inverse content others more stripProgram stripOthers
      stripMore =>
    intro scope seen
    have same (seen : Seen) := Phrase.content.inj (stripMore scope seen)
    cases left : (Probe.rule identity).leaves (.block tags ⟨program, params, chained⟩ inverse) with
    | true =>
      rw [Phrase.walk, Rule.walkBody_cons, Rule.walk_left _ _ _ left]
      simp only [Phrase.strip]
      rw [Probe.stripBody_cons, same, ← Probe.stripBody_cons]
    | false =>
      have sameInner := Phrase.content.inj (stripProgram (scope.within params) seen)
      have sameOthers (seen : Seen) := (Phrase.inverse.inj (stripOthers scope seen)).2
      rw [Phrase.walk, Rule.walkBody_cons, Rule.walk_block _ _ _ left]
      simp only [Phrase.strip, Probe.stripBody_settle]
      cases found : Probe.isWrapper tags ⟨program, params, chained⟩ inverse with
      | true =>
        rw [Probe.stripBody_wrapper found, Probe.stripBody_wrapper, sameInner, same]
        rw [Probe.isWrapper_walk, found]
      | false =>
        rw [Probe.stripBody_block found, Probe.stripBody_block, sameInner, same, sameOthers]
        rw [Probe.isWrapper_walk, found]
  | noInverse =>
    intro scope seen
    rw [Phrase.walk, Rule.walkInverse]
  | @elseBody tags body params content stripBody =>
    intro scope seen
    have same := Phrase.content.inj (stripBody (scope.within params) seen)
    rw [Phrase.walk, Rule.walkInverse_else]
    simp only [Phrase.strip, Probe.stripInverse_else, same]
  | @elseBlock tags chained program params bound continued inverse content others stripProgram
      stripOthers =>
    intro scope seen
    have sameInner := Phrase.content.inj (stripProgram (scope.within params) seen)
    have sameOthers (seen : Seen) := (Phrase.inverse.inj (stripOthers scope seen)).2
    rw [Phrase.walk, Rule.walkInverse_chain]
    simp only [Phrase.strip, Probe.stripInverse_chain, sameInner, sameOthers]

/-! ### What stripping leaves -/

/-- A phrase without conditionals is left as it is. -/
theorem Regular.strip_self {phrase : Phrase} (regular : Regular phrase)
    (unprobed : ∀ statement ∈ phrase.statements, Probe.isConditional statement = false) :
    phrase.strip = phrase := by
  induction regular with
  | nil => rw [Phrase.strip, Probe.stripBody_nil]
  | @leaf statement body isLeaf more stripMore =>
    obtain ⟨-, -, unprobedMore⟩ := forall_statements_cons.mp unprobed
    rw [Phrase.strip, Probe.stripBody_leaf isLeaf, Phrase.content.inj (stripMore unprobedMore)]
  | @element tags children body content more stripChildren stripMore =>
    obtain ⟨-, unprobedChildren, unprobedMore⟩ := forall_statements_cons.mp unprobed
    rw [Phrase.strip, Probe.stripBody_element, Phrase.content.inj (stripChildren unprobedChildren),
      Phrase.content.inj (stripMore unprobedMore)]
  | @block tags program body params chained inverse content others more stripProgram stripOthers
      stripMore =>
    obtain ⟨isOther, unprobedProgram, unprobedOthers, unprobedMore⟩ :=
      forall_statements_block.mp unprobed
    have sameInner := Phrase.content.inj (stripProgram unprobedProgram)
    have sameOthers := (Phrase.inverse.inj (stripOthers unprobedOthers)).2
    have same := Phrase.content.inj (stripMore unprobedMore)
    rw [Phrase.strip, Probe.stripBody_block isOther, sameInner, sameOthers, same]
  | noInverse => rw [Phrase.strip, Probe.stripInverse]
  | elseBody content stripBody =>
    rw [Phrase.strip, Probe.stripInverse_else, Phrase.content.inj (stripBody unprobed)]
  | @elseBlock tags chained program params bound continued inverse content others stripProgram
      stripOthers =>
    obtain ⟨unprobedProgram, unprobedOthers⟩ := forall_statements_chain.mp unprobed
    have sameInner := Phrase.content.inj (stripProgram unprobedProgram)
    have sameOthers := (Phrase.inverse.inj (stripOthers unprobedOthers)).2
    rw [Phrase.strip, Probe.stripInverse_chain, sameInner, sameOthers]

theorem bodyPlaces_append (first second : List Statement) :
    bodyPlaces (first ++ second) = bodyPlaces first ++ bodyPlaces second := by
  induction first with
  | nil => rfl
  | cons statement rest inductionHypothesis =>
    rw [List.cons_append, bodyPlaces, inductionHypothesis, bodyPlaces, List.append_assoc]

/-- What is left begins where it began. -/
theorem Regular.places_strip {phrase : Phrase} (regular : Regular phrase) :
    phrase.strip.places.Sublist phrase.places := by
  induction regular with
  | nil => exact List.Sublist.refl _
  | @leaf statement body isLeaf more stripMore =>
    rw [Phrase.strip, Probe.stripBody_leaf isLeaf]
    exact (List.Sublist.refl _).append stripMore
  | @element tags children body content more stripChildren stripMore =>
    rw [Phrase.strip, Probe.stripBody_element]
    exact stripChildren.append stripMore
  | @block tags program body params chained inverse content others more stripProgram stripOthers
      stripMore =>
    cases found : Probe.isWrapper tags ⟨program, params, chained⟩ inverse with
    | true =>
      rw [Phrase.strip, Probe.stripBody_wrapper found, Phrase.places, bodyPlaces_append]
      refine List.Sublist.append (.cons _ ?_) stripMore
      exact stripProgram.trans (List.sublist_append_left _ _)
    | false =>
      rw [Phrase.strip, Probe.stripBody_block found]
      exact List.Sublist.append (.cons_cons _ (stripProgram.append stripOthers)) stripMore
  | noInverse => exact List.Sublist.refl _
  | elseBody content stripBody =>
    rw [Phrase.strip, Probe.stripInverse_else]
    exact stripBody
  | elseBlock content others stripProgram stripOthers =>
    rw [Phrase.strip, Probe.stripInverse_chain]
    exact List.Sublist.append (.cons_cons _ (stripProgram.append stripOthers)) (.refl _)

theorem Regular.append {first second : List Statement} (regular : Regular (.content first))
    (more : Regular (.content second)) : Regular (.content (first ++ second)) := by
  induction first with
  | nil => exact more
  | cons statement rest inductionHypothesis =>
    cases regular with
    | leaf isLeaf tail => exact .leaf isLeaf (inductionHypothesis tail)
    | element content tail => exact .element content (inductionHypothesis tail)
    | block content others tail => exact .block content others (inductionHypothesis tail)

theorem Regular.strip {phrase : Phrase} (regular : Regular phrase) : Regular phrase.strip := by
  induction regular with
  | nil => exact .nil
  | leaf isLeaf more stripMore =>
    rw [Phrase.strip, Probe.stripBody_leaf isLeaf]
    exact .leaf isLeaf stripMore
  | element content more stripChildren stripMore =>
    rw [Phrase.strip, Probe.stripBody_element]
    exact .element stripChildren stripMore
  | @block tags program body params chained inverse content others more stripProgram stripOthers
      stripMore =>
    cases found : Probe.isWrapper tags ⟨program, params, chained⟩ inverse with
    | true =>
      rw [Phrase.strip, Probe.stripBody_wrapper found]
      exact Regular.append stripProgram stripMore
    | false =>
      rw [Phrase.strip, Probe.stripBody_block found]
      exact .block stripProgram stripOthers stripMore
  | noInverse => exact .noInverse
  | elseBody content stripBody =>
    rw [Phrase.strip, Probe.stripInverse_else]
    exact .elseBody stripBody
  | elseBlock content others stripProgram stripOthers =>
    rw [Phrase.strip, Probe.stripInverse_chain]
    exact .elseBlock stripProgram stripOthers

/-! ### Stripping twice -/

/-- The number of statements that a phrase has side by side. -/
def Phrase.width : Phrase → Nat
  | .content body => body.length
  | .inverse _ none => 0
  | .inverse _ (some program) => program.body.length

theorem Probe.length_of_isWrapper {tags : BlockTags} {program : List Statement}
    {params : List String} {chained : Bool} {inverse : Option Program}
    (found : isWrapper tags ⟨program, params, chained⟩ inverse = true) : program.length = 1 := by
  cases inverse with
  | none => cases found
  | some inverse =>
    simp only [isWrapper, Bool.and_eq_true, beq_iff_eq] at found
    exact found.1.2

/-- Every statement leaves one statement, since a conditional holds one in its first branch. -/
theorem Regular.width_strip {phrase : Phrase} (regular : Regular phrase) :
    phrase.strip.width = phrase.width := by
  induction regular with
  | nil => rw [Phrase.strip, Probe.stripBody_nil]
  | leaf isLeaf more widthMore =>
    rw [Phrase.strip, Probe.stripBody_leaf isLeaf]
    exact congrArg (· + 1) widthMore
  | element content more widthChildren widthMore =>
    rw [Phrase.strip, Probe.stripBody_element]
    exact congrArg (· + 1) widthMore
  | @block tags program body params chained inverse content others more widthProgram widthOthers
      widthMore =>
    cases found : Probe.isWrapper tags ⟨program, params, chained⟩ inverse with
    | true =>
      have one : (Probe.stripBody program).1.length = 1 :=
        widthProgram.trans (Probe.length_of_isWrapper found)
      have rest : (Probe.stripBody body).1.length = body.length := widthMore
      rw [Phrase.strip, Probe.stripBody_wrapper found, Phrase.width, Phrase.width,
        List.length_append, List.length_cons, one, rest, Nat.add_comm]
    | false =>
      rw [Phrase.strip, Probe.stripBody_block found]
      exact congrArg (· + 1) widthMore
  | noInverse => rw [Phrase.strip, Probe.stripInverse]
  | elseBody content widthBody =>
    rw [Phrase.strip, Probe.stripInverse_else]
    exact widthBody
  | elseBlock content others widthProgram widthOthers =>
    rw [Phrase.strip, Probe.stripInverse_chain]
    rfl

/-- A block is a conditional after stripping what it holds if it was one before. -/
theorem Probe.isWrapper_strip {tags : BlockTags} {program : List Statement} {params : List String}
    {chained : Bool} {inverse : Option Program} (content : Regular (.content program))
    (others : Regular (.inverse tags inverse)) :
    isWrapper tags ⟨(stripBody program).1, params, chained⟩ (stripInverse inverse).1 =
      isWrapper tags ⟨program, params, chained⟩ inverse := by
  have width : (stripBody program).1.length = program.length := content.width_strip
  cases others with
  | noInverse =>
    rw [stripInverse]
    rfl
  | @elseBody _ body bound contentBody =>
    have widthBody : (stripBody body).1.length = body.length := contentBody.width_strip
    rw [stripInverse_else]
    simp only [isWrapper, width, widthBody]
  | elseBlock =>
    rw [stripInverse_chain]
    simp only [isWrapper, width, List.length_singleton]

theorem bodyStatements_append (first second : List Statement) :
    bodyStatements (first ++ second) = bodyStatements first ++ bodyStatements second := by
  induction first with
  | nil => rfl
  | cons statement rest inductionHypothesis =>
    simp only [List.cons_append, bodyStatements, inductionHypothesis, List.append_assoc]

/-- Stripping leaves no conditional, neither an old one nor one that the stripping has made. -/
theorem Regular.unprobed_strip {phrase : Phrase} (regular : Regular phrase) :
    ∀ statement ∈ phrase.strip.statements, Probe.isConditional statement = false := by
  induction regular with
  | nil =>
    intro statement member
    rw [Phrase.strip, Probe.stripBody_nil, Phrase.statements, bodyStatements] at member
    cases member
  | @leaf statement body isLeaf more unprobedMore =>
    rw [Phrase.strip, Probe.stripBody_leaf isLeaf, Phrase.statements, bodyStatements,
      Statement.inside_of_isLeaf isLeaf]
    refine List.forall_mem_cons.mpr ⟨?_, unprobedMore⟩
    cases statement <;> first | rfl | cases isLeaf
  | element content more unprobedChildren unprobedMore =>
    rw [Phrase.strip, Probe.stripBody_element, Phrase.statements, bodyStatements]
    exact List.forall_mem_cons.mpr
      ⟨rfl, List.forall_mem_append.mpr ⟨unprobedChildren, unprobedMore⟩⟩
  | @block tags program body params chained inverse content others more unprobedProgram
      unprobedOthers unprobedMore =>
    cases found : Probe.isWrapper tags ⟨program, params, chained⟩ inverse with
    | true =>
      rw [Phrase.strip, Probe.stripBody_wrapper found, Phrase.statements, bodyStatements_append]
      exact List.forall_mem_append.mpr ⟨unprobedProgram, unprobedMore⟩
    | false =>
      have still : Probe.isConditional (.block tags ⟨(Probe.stripBody program).1, params, chained⟩
          (Probe.stripInverse inverse).1) = false :=
        (Probe.isWrapper_strip content others).trans found
      rw [Phrase.strip, Probe.stripBody_block found, Phrase.statements, bodyStatements]
      exact List.forall_mem_cons.mpr ⟨still, List.forall_mem_append.mpr
        ⟨List.forall_mem_append.mpr ⟨unprobedProgram, unprobedOthers⟩, unprobedMore⟩⟩
  | noInverse =>
    intro statement member
    rw [Phrase.strip, Probe.stripInverse, Phrase.statements, inverseStatements] at member
    cases member
  | elseBody content unprobedBody =>
    rw [Phrase.strip, Probe.stripInverse_else]
    exact unprobedBody
  | elseBlock content others unprobedProgram unprobedOthers =>
    rw [Phrase.strip, Probe.stripInverse_chain, Phrase.statements, inverseStatements_chain]
    exact List.forall_mem_append.mpr ⟨unprobedProgram, unprobedOthers⟩

/-- Stripping twice is stripping once. -/
theorem Regular.strip_strip {phrase : Phrase} (regular : Regular phrase) :
    phrase.strip.strip = phrase.strip :=
  regular.strip.strip_self regular.unprobed_strip

end TagMigration
