/-
What a walk can do to a tree, whatever names are bound around it and whatever places it has
seen. A statement stays or gives way to what the rule puts in its place, after its content
has been walked; a statement that the rule leaves alone stays with all it holds; and a chained
block stays a chained block. Every property that a pass keeps follows from this relation by
one induction, without the state of the walk.
-/
import TagMigration.Proofs.Pass.Stripping

namespace TagMigration

/-- What becomes of a statement whose content has been walked. -/
inductive Settled (rule : Rule) (statement : Statement) : Statement → Prop where
  | stays : Settled rule statement statement
  | replaced {scope : Scope} {replacement : Statement}
    (replaces : rule.replace? scope statement = some replacement) :
    Settled rule statement replacement

/-- What a walk may make of a phrase. -/
inductive Walked (rule : Rule) : Phrase → Phrase → Prop where
  | nil : Walked rule (.content []) (.content [])
  | leaf {statement settled : Statement} {body after : List Statement}
    (isLeaf : statement.isLeaf = true) (becomes : Settled rule statement settled)
    (more : Walked rule (.content body) (.content after)) :
    Walked rule (.content (statement :: body)) (.content (settled :: after))
  | element {tags : ElementTags} {settled : Statement} {children inner body after : List Statement}
    (content : Walked rule (.content children) (.content inner))
    (becomes : Settled rule (.element tags inner) settled)
    (more : Walked rule (.content body) (.content after)) :
    Walked rule (.content (.element tags children :: body)) (.content (settled :: after))
  | left {statement : Statement} {body after : List Statement}
    (alone : Regular (.content [statement]))
    (more : Walked rule (.content body) (.content after)) :
    Walked rule (.content (statement :: body)) (.content (statement :: after))
  | block {tags : BlockTags} {settled : Statement} {program inner body after : List Statement}
    {params : List String} {chained : Bool} {inverse others : Option Program}
    (content : Walked rule (.content program) (.content inner))
    (behind : Walked rule (.inverse tags inverse) (.inverse tags others))
    (becomes : Settled rule (.block tags ⟨inner, params, chained⟩ others) settled)
    (more : Walked rule (.content body) (.content after)) :
    Walked rule (.content (.block tags ⟨program, params, chained⟩ inverse :: body))
      (.content (settled :: after))
  | noInverse {tags : BlockTags} : Walked rule (.inverse tags none) (.inverse tags none)
  | elseBody {tags : BlockTags} {body inner : List Statement} {params : List String}
    (content : Walked rule (.content body) (.content inner)) :
    Walked rule (.inverse tags (some ⟨body, params, false⟩))
      (.inverse tags (some ⟨inner, params, false⟩))
  | elseBlock {tags chained : BlockTags} {program inner : List Statement}
    {params bound : List String} {continued : Bool} {inverse others : Option Program}
    (content : Walked rule (.content program) (.content inner))
    (behind : Walked rule (.inverse chained inverse) (.inverse chained others)) :
    Walked rule
      (.inverse tags (some ⟨[.block chained ⟨program, params, continued⟩ inverse], bound, true⟩))
      (.inverse tags (some ⟨[.block chained ⟨inner, params, continued⟩ others], bound, true⟩))

section Walk

variable {rule : Rule}

theorem Rule.settled_settle (rule : Rule) (scope : Scope) (seen : Seen) (statement : Statement) :
    Settled rule statement (rule.settle scope seen statement).1 := by
  unfold Rule.settle
  split
  · next replacement span replaces found =>
    split
    · exact .stays
    · exact .replaced replaces
  · exact .stays

/-- A walk over a regular phrase does nothing else. -/
theorem Regular.walked {phrase : Phrase} (regular : Regular phrase) (rule : Rule) :
    ∀ scope seen, Walked rule phrase (phrase.walk rule scope seen) := by
  induction regular with
  | nil =>
    intro scope seen
    rw [Phrase.walk, Rule.walkBody]
    exact .nil
  | leaf isLeaf more walkMore =>
    intro scope seen
    rw [Phrase.walk, Rule.walkBody_cons, Rule.walk_leaf _ _ _ isLeaf]
    exact .leaf isLeaf (rule.settled_settle scope seen _) (walkMore scope _)
  | @element tags children body content more walkChildren walkMore =>
    intro scope seen
    rw [Phrase.walk, Rule.walkBody_cons, Rule.walk_element]
    exact .element (walkChildren (scope.within tags.params) seen) (rule.settled_settle scope _ _)
      (walkMore scope _)
  | @block tags program body params chained inverse content others more walkProgram walkOthers
      walkMore =>
    intro scope seen
    rw [Phrase.walk, Rule.walkBody_cons]
    cases left : rule.leaves (.block tags ⟨program, params, chained⟩ inverse) with
    | true =>
      rw [Rule.walk_left _ _ _ left]
      exact .left (.block content others .nil) (walkMore scope _)
    | false =>
      rw [Rule.walk_block _ _ _ left]
      exact .block (walkProgram (scope.within params) seen) (walkOthers scope _)
        (rule.settled_settle scope _ _) (walkMore scope _)
  | noInverse =>
    intro scope seen
    rw [Phrase.walk, Rule.walkInverse]
    exact .noInverse
  | @elseBody tags body params content walkBody =>
    intro scope seen
    rw [Phrase.walk, Rule.walkInverse_else]
    exact .elseBody (walkBody (scope.within params) seen)
  | @elseBlock tags chained program params bound continued inverse content others walkProgram
      walkOthers =>
    intro scope seen
    rw [Phrase.walk, Rule.walkInverse_chain]
    exact .elseBlock (walkProgram (scope.within params) seen) (walkOthers scope _)

theorem Walked.length {body after : List Statement}
    (walked : Walked rule (.content body) (.content after)) : after.length = body.length := by
  induction body generalizing after with
  | nil =>
    cases walked
    rfl
  | cons statement rest inductionHypothesis =>
    cases walked with
    | leaf _ _ more => exact congrArg (· + 1) (inductionHypothesis more)
    | element _ _ more => exact congrArg (· + 1) (inductionHypothesis more)
    | left _ more => exact congrArg (· + 1) (inductionHypothesis more)
    | block _ _ _ more => exact congrArg (· + 1) (inductionHypothesis more)

/-! ### Regular trees stay regular -/

/-- A rule that puts regular content in place of regular content. -/
def Rule.KeepsRegular (rule : Rule) : Prop :=
  ∀ scope statement replacement, rule.replace? scope statement = some replacement →
    Regular (.content [statement]) → Regular (.content [replacement])

theorem Settled.regular {statement settled : Statement} (keeps : rule.KeepsRegular)
    (becomes : Settled rule statement settled) (regular : Regular (.content [statement])) :
    Regular (.content [settled]) := by
  cases becomes with
  | stays => exact regular
  | replaced replaces => exact keeps _ _ _ replaces regular

/-- What a walk makes of a phrase is regular. -/
theorem Walked.regular {phrase after : Phrase} (keeps : rule.KeepsRegular)
    (walked : Walked rule phrase after) : Regular after := by
  induction walked with
  | nil => exact .nil
  | leaf isLeaf becomes _ more => exact (becomes.regular keeps (.leaf isLeaf .nil)).append more
  | element _ becomes _ content more =>
    exact (becomes.regular keeps (.element content .nil)).append more
  | left alone _ more => exact alone.append more
  | block _ _ becomes _ content behind more =>
    exact (becomes.regular keeps (.block content behind .nil)).append more
  | noInverse => exact .noInverse
  | elseBody _ content => exact .elseBody content
  | elseBlock _ _ content behind => exact .elseBlock content behind

/-! ### Trees without conditionals stay without -/

/-- A block is a conditional after a walk if it was one before. -/
theorem Walked.isWrapper {tags : BlockTags} {program inner : List Statement}
    {inverse others : Option Program} (content : Walked rule (.content program) (.content inner))
    (behind : Walked rule (.inverse tags inverse) (.inverse tags others)) (params : List String)
    (chained : Bool) :
    Probe.isWrapper tags ⟨inner, params, chained⟩ others =
      Probe.isWrapper tags ⟨program, params, chained⟩ inverse := by
  cases behind with
  | noInverse => rfl
  | elseBody body => simp only [Probe.isWrapper, content.length, body.length]
  | elseBlock => simp [Probe.isWrapper]

/-- A rule that puts no conditional in place of what holds none. -/
def Rule.KeepsUnprobed (rule : Rule) : Prop :=
  ∀ scope statement replacement, rule.replace? scope statement = some replacement →
    (∀ other ∈ bodyStatements [statement], Probe.isConditional other = false) →
    ∀ other ∈ bodyStatements [replacement], Probe.isConditional other = false

theorem Settled.unprobed {statement settled : Statement} (keeps : rule.KeepsUnprobed)
    (becomes : Settled rule statement settled)
    (unprobed : ∀ other ∈ bodyStatements [statement], Probe.isConditional other = false) :
    ∀ other ∈ bodyStatements [settled], Probe.isConditional other = false := by
  cases becomes with
  | stays => exact unprobed
  | replaced replaces => exact keeps _ _ _ replaces unprobed

theorem forall_bodyStatements_cons {property : Statement → Prop} {statement : Statement}
    {rest : List Statement} :
    (∀ other ∈ bodyStatements (statement :: rest), property other) ↔
      (∀ other ∈ bodyStatements [statement], property other) ∧
        ∀ other ∈ bodyStatements rest, property other := by
  rw [← List.singleton_append, bodyStatements_append, List.forall_mem_append]

/-- What a walk makes of a phrase holds no conditional. -/
theorem Walked.unprobed {phrase after : Phrase} (keeps : rule.KeepsUnprobed)
    (walked : Walked rule phrase after)
    (unprobed : ∀ statement ∈ phrase.statements, Probe.isConditional statement = false) :
    ∀ statement ∈ after.statements, Probe.isConditional statement = false := by
  induction walked with
  | nil => exact unprobed
  | leaf isLeaf becomes more inMore =>
    obtain ⟨here, behind⟩ := forall_bodyStatements_cons.mp unprobed
    exact forall_bodyStatements_cons.mpr ⟨becomes.unprobed keeps here, inMore behind⟩
  | element content becomes more inContent inMore =>
    obtain ⟨here, behind⟩ := forall_bodyStatements_cons.mp unprobed
    refine forall_bodyStatements_cons.mpr ⟨becomes.unprobed keeps ?_, inMore behind⟩
    rw [bodyStatements, bodyStatements, List.append_nil] at here ⊢
    exact List.forall_mem_cons.mpr ⟨rfl, inContent (List.forall_mem_cons.mp here).2⟩
  | left alone more inMore =>
    obtain ⟨here, behind⟩ := forall_bodyStatements_cons.mp unprobed
    exact forall_bodyStatements_cons.mpr ⟨here, inMore behind⟩
  | block content inverse becomes more inContent inInverse inMore =>
    obtain ⟨here, behind⟩ := forall_bodyStatements_cons.mp unprobed
    refine forall_bodyStatements_cons.mpr ⟨becomes.unprobed keeps ?_, inMore behind⟩
    rw [bodyStatements, bodyStatements, List.append_nil] at here ⊢
    obtain ⟨isOther, inside⟩ := List.forall_mem_cons.mp here
    obtain ⟨inProgram, inOthers⟩ := List.forall_mem_append.mp inside
    refine List.forall_mem_cons.mpr ⟨?_, List.forall_mem_append.mpr
      ⟨inContent inProgram, inInverse inOthers⟩⟩
    exact (content.isWrapper inverse _ _).trans isOther
  | noInverse => exact unprobed
  | elseBody content inContent => exact inContent unprobed
  | elseBlock content inverse inContent inInverse =>
    rw [Phrase.statements, inverseStatements_chain] at unprobed ⊢
    obtain ⟨inProgram, inOthers⟩ := List.forall_mem_append.mp unprobed
    exact List.forall_mem_append.mpr ⟨inContent inProgram, inInverse inOthers⟩

/-! ### Probes and tags -/

/-- The conditional around a statement of a regular tree is regular. -/
theorem Probe.rule_keepsRegular (identity : String) : (Probe.rule identity).KeepsRegular := by
  intro scope statement replacement replaces regular
  obtain ⟨name, -, rfl⟩ := Option.map_eq_some_iff.mp replaces
  show Regular (.content [.block _ ⟨[statement], [], false⟩ (some ⟨[statement], [], false⟩)])
  exact .block regular (.elseBody regular) .nil

/-- What stands for an invocation is an empty tag, or a tag around the content of a block that has
no inverse. -/
theorem TagForm.element?_cases {tag : String} {statement replacement : Statement}
    (becomes : element? tag statement = some replacement) :
    (∃ invocation, statement = .mustache invocation ∧
      replacement = Build.element tag invocation.call.toAttributes [] true []) ∨
    ∃ tags body params chained, statement = .block tags ⟨body, params, chained⟩ none ∧
      replacement = Build.element tag tags.call.toAttributes params false
        (Build.text "\n" :: body) := by
  cases statement with
  | mustache invocation => exact .inl ⟨invocation, rfl, (Option.some.inj becomes).symm⟩
  | block tags program inverse =>
    obtain ⟨body, params, chained⟩ := program
    cases inverse with
    | none => exact .inr ⟨tags, body, params, chained, rfl, (Option.some.inj becomes).symm⟩
    | some inverse => cases becomes
  | _ => cases becomes

theorem TagForm.replace?_eq_some {confirmed : List String} {scope : Scope}
    {statement replacement : Statement} :
    (TagForm.rule confirmed).replace? scope statement = some replacement ↔
      ∃ tag, tag? confirmed scope statement = some tag ∧ element? tag statement = some replacement :=
  Option.bind_eq_some_iff

theorem TagForm.rule_keepsRegular (confirmed : List String) :
    (TagForm.rule confirmed).KeepsRegular := by
  intro scope statement replacement replaces regular
  obtain ⟨tag, -, becomes⟩ := replace?_eq_some.mp replaces
  rcases element?_cases becomes with ⟨_, rfl, rfl⟩ | ⟨tags, body, params, chained, rfl, rfl⟩
  · exact .element .nil .nil
  · cases regular with
    | leaf isLeaf => cases isLeaf
    | block content others more => exact .element (.leaf rfl content) .nil

theorem TagForm.rule_keepsUnprobed (confirmed : List String) :
    (TagForm.rule confirmed).KeepsUnprobed := by
  intro scope statement replacement replaces unprobed
  obtain ⟨tag, -, becomes⟩ := replace?_eq_some.mp replaces
  rcases element?_cases becomes with ⟨_, rfl, rfl⟩ | ⟨tags, body, params, chained, rfl, rfl⟩
  · exact List.forall_mem_cons.mpr ⟨rfl, fun _ member => nomatch member⟩
  · have inside : ∀ other ∈ bodyStatements body, Probe.isConditional other = false :=
      fun other member => unprobed other (List.mem_cons_of_mem _ (List.mem_append_left _
        (List.mem_append_left _ member)))
    refine List.forall_mem_cons.mpr ⟨rfl, List.forall_mem_append.mpr ⟨?_, fun _ member =>
      nomatch member⟩⟩
    exact List.forall_mem_cons.mpr ⟨rfl, inside⟩

end Walk

end TagMigration
