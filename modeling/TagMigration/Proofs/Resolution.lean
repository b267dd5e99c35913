/-
Whatever the application answers. While it runs, every conditional of an instrumented template
puts its question, and the answer picks one of the two branches. A block is copied into both
branches after what it holds has been probed, so one question of the template becomes many
in the tree, and nothing makes their answers agree. Here the answers are free: one for
each place of a tree. Resolving a template by them puts in place of every conditional what
the chosen branch holds, again resolved; and an instrumented template resolves to the template
it was made of, spans included, by whatever answers.
-/
import TagMigration.Proofs.Instrumented

namespace TagMigration

namespace Probe

/-! ### Answers -/

/-- The branches of a conditional. -/
inductive Branch where
  | program
  | inverse
deriving DecidableEq, Repr

/-- A turn on the way to a place in a tree. From a body the way goes to its first statement or on
to the others, from a block into its program or its inverse, from an element to its children. -/
inductive Turn where
  | first
  | second
deriving DecidableEq, Repr

/-- A branch for every place of a tree. No two places are reached by the same turns, so each
answer is independent of the others. -/
def Answers : Type := List Turn → Branch

/-- The answers behind a turn. -/
def Answers.behind (answers : Answers) (turn : Turn) : Answers :=
  fun way => answers (turn :: way)

/-- The answer at the place itself. -/
def Answers.here (answers : Answers) : Branch :=
  answers []

/-- The content of an inverse. -/
def inverseBody : Option Program → List Statement
  | none => []
  | some program => program.body

mutual

/-- What a statement resolves to: a conditional to the content of the chosen branch, every other
statement to itself with its content resolved. -/
def resolve (answers : Answers) : Statement → List Statement
  | .block tags program inverse =>
    let branch := resolveProgram (answers.behind .first) program
    let other := resolveInverse (answers.behind .second) inverse
    if isWrapper tags program inverse then
      match answers.here with
      | .program => branch.body
      | .inverse => inverseBody other
    else [.block tags branch other]
  | .element tags children => [.element tags (resolveBody (answers.behind .first) children)]
  | .text run => [.text run]
  | .mustache tag => [.mustache tag]
  | .comment remark => [.comment remark]
  | .curlyComment remark => [.curlyComment remark]

/-- What a body resolves to. -/
def resolveBody (answers : Answers) : List Statement → List Statement
  | [] => []
  | statement :: rest =>
    resolve (answers.behind .first) statement ++ resolveBody (answers.behind .second) rest

/-- A program with its content resolved. -/
def resolveProgram (answers : Answers) : Program → Program
  | ⟨body, params, chained⟩ => ⟨resolveBody answers body, params, chained⟩

/-- An inverse with its content resolved. -/
def resolveInverse (answers : Answers) : Option Program → Option Program
  | none => none
  | some ⟨body, params, true⟩ => some ⟨resolveChain answers body, params, true⟩
  | some ⟨body, params, false⟩ => some ⟨resolveBody answers body, params, false⟩

/-- The body of a chained inverse: a block in it is never a conditional of its own. -/
def resolveChain (answers : Answers) : List Statement → List Statement
  | [] => []
  | .block tags program inverse :: rest =>
    .block tags (resolveProgram ((answers.behind .first).behind .first) program)
      (resolveInverse ((answers.behind .first).behind .second) inverse) ::
        resolveChain (answers.behind .second) rest
  | statement :: rest =>
    resolve (answers.behind .first) statement ++ resolveChain (answers.behind .second) rest

end

/-! ### Resolving, one step at a time -/

theorem resolve_leaf {statement : Statement} (isLeaf : statement.isLeaf = true)
    (answers : Answers) : resolve answers statement = [statement] := by
  cases statement <;> first | cases isLeaf; done | rw [resolve]

section Block

variable {tags : BlockTags} {program : List Statement} {params : List String} {chained : Bool}
  {inverse : Option Program}

theorem resolve_block (other : isWrapper tags ⟨program, params, chained⟩ inverse = false)
    (answers : Answers) :
    resolve answers (.block tags ⟨program, params, chained⟩ inverse) =
      [.block tags ⟨resolveBody (answers.behind .first) program, params, chained⟩
        (resolveInverse (answers.behind .second) inverse)] := by
  rw [resolve, other, resolveProgram]
  rfl

theorem resolveInverse_chain (bound : List String) (answers : Answers) :
    resolveInverse answers (some ⟨[.block tags ⟨program, params, chained⟩ inverse], bound, true⟩) =
      some ⟨[.block tags
        ⟨resolveBody ((answers.behind .first).behind .first) program, params, chained⟩
        (resolveInverse ((answers.behind .first).behind .second) inverse)], bound, true⟩ := by
  rw [resolveInverse, resolveChain, resolveProgram, resolveChain]

end Block

/-- A conditional that holds in both branches what resolves to one statement resolves to that
statement, whichever branch is chosen. -/
theorem resolve_conditional {walked statement : Statement}
    (resolves : ∀ answers, resolve answers walked = [statement]) (name identity : String)
    (answers : Answers) : resolve answers (conditional name identity walked) = [statement] := by
  have body (answers : Answers) : resolveBody answers [walked] = [statement] := by
    rw [resolveBody, resolves, resolveBody, List.append_nil]
  rw [conditional, resolve, isWrapper_conditionalTags]
  cases answers.here with
  | program =>
    rw [Build.program, resolveProgram]
    exact body _
  | inverse =>
    rw [Build.program, resolveInverse]
    exact body _

/-- Settling a statement changes nothing for resolving. -/
theorem resolve_settle {walked statement : Statement}
    (resolves : ∀ answers, resolve answers walked = [statement]) (identity : String)
    (scope : Scope) (seen : Seen) (answers : Answers) :
    resolve answers ((Probe.rule identity).settle scope seen walked).1 = [statement] := by
  unfold Rule.settle
  split
  · next replacement span replaces found =>
    split
    · exact resolves answers
    · obtain ⟨name, -, rfl⟩ := Option.map_eq_some_iff.mp replaces
      exact resolve_conditional resolves name identity answers
  · exact resolves answers

end Probe

/-! ### Instrumented templates -/

/-- What a phrase resolves to. -/
def Phrase.resolve (answers : Probe.Answers) : Phrase → Phrase
  | .content body => .content (Probe.resolveBody answers body)
  | .inverse tags others => .inverse tags (Probe.resolveInverse answers others)

/-- A statement in front of a body that resolves to what it was. -/
theorem resolve_walk_cons {identity : String} {statement : Statement} {body : List Statement}
    {scope : Scope} {seen : Seen}
    (first : ∀ answers,
      Probe.resolve answers ((Probe.rule identity).walk scope seen statement).1 = [statement])
    (more : ∀ seen answers, ((Phrase.content body).walk (Probe.rule identity) scope seen).resolve
      answers = .content body) (answers : Probe.Answers) :
    ((Phrase.content (statement :: body)).walk (Probe.rule identity) scope seen).resolve answers =
      .content (statement :: body) := by
  have rest (seen : Seen) (answers : Probe.Answers) := Phrase.content.inj (more seen answers)
  rw [Phrase.walk, Rule.walkBody_cons]
  simp only [Phrase.resolve, Probe.resolveBody, first, rest]
  rfl

/-- What a walk that probes has made of a phrase without conditionals resolves to that phrase,
whatever places the walk has seen and whatever the answers are. -/
theorem Regular.resolve_walk {phrase : Phrase} (regular : Regular phrase) (identity : String) :
    (∀ statement ∈ phrase.statements, Probe.isConditional statement = false) →
    ∀ scope seen answers,
      (phrase.walk (Probe.rule identity) scope seen).resolve answers = phrase := by
  induction regular with
  | nil =>
    intro _ scope seen answers
    rw [Phrase.walk, Rule.walkBody, Phrase.resolve, Probe.resolveBody]
  | @leaf statement body isLeaf more resolveMore =>
    intro unprobed scope seen
    obtain ⟨-, -, unprobedMore⟩ := forall_statements_cons.mp unprobed
    refine resolve_walk_cons (fun answers => ?_) (resolveMore unprobedMore scope)
    rw [Rule.walk_leaf _ _ _ isLeaf]
    exact Probe.resolve_settle (Probe.resolve_leaf isLeaf) identity scope seen answers
  | @element tags children body content more resolveChildren resolveMore =>
    intro unprobed scope seen
    obtain ⟨-, unprobedChildren, unprobedMore⟩ := forall_statements_cons.mp unprobed
    refine resolve_walk_cons (fun answers => ?_) (resolveMore unprobedMore scope)
    rw [Rule.walk_element]
    refine Probe.resolve_settle (fun answers => ?_) identity scope _ answers
    have inner := Phrase.content.inj (resolveChildren unprobedChildren (scope.within tags.params)
      seen (answers.behind .first))
    rw [Probe.resolve, inner]
  | @block tags program body params chained inverse content others more resolveProgram
      resolveOthers resolveMore =>
    intro unprobed scope seen
    obtain ⟨isOther, unprobedProgram, unprobedOthers, unprobedMore⟩ :=
      forall_statements_block.mp unprobed
    refine resolve_walk_cons (fun answers => ?_) (resolveMore unprobedMore scope)
    have walked : (Probe.rule identity).leaves
        (.block tags ⟨program, params, chained⟩ inverse) = false :=
      Bool.and_eq_false_iff.mpr (.inr isOther)
    rw [Rule.walk_block _ _ _ walked]
    refine Probe.resolve_settle (fun answers => ?_) identity scope _ answers
    have inner := Phrase.content.inj
      (resolveProgram unprobedProgram (scope.within params) seen (answers.behind .first))
    have outer (seen : Seen) := (Phrase.inverse.inj
      (resolveOthers unprobedOthers scope seen (answers.behind .second))).2
    -- Walking keeps the number of statements in a branch, and with it what is a conditional.
    rw [Probe.resolve_block ((Probe.isWrapper_walk ..).trans isOther), inner, outer]
  | noInverse =>
    intro _ scope seen answers
    rw [Phrase.walk, Rule.walkInverse, Phrase.resolve, Probe.resolveInverse]
  | @elseBody tags body params content resolveBody =>
    intro unprobed scope seen answers
    have inner := Phrase.content.inj
      (resolveBody unprobed (scope.within params) seen answers)
    rw [Phrase.walk, Rule.walkInverse_else, Phrase.resolve, Probe.resolveInverse, inner]
  | @elseBlock tags chained program params bound continued inverse content others resolveProgram
      resolveOthers =>
    intro unprobed scope seen answers
    obtain ⟨unprobedProgram, unprobedOthers⟩ := forall_statements_chain.mp unprobed
    have inner := Phrase.content.inj (resolveProgram unprobedProgram (scope.within params) seen
      ((answers.behind .first).behind .first))
    have outer (seen : Seen) := (Phrase.inverse.inj (resolveOthers unprobedOthers scope seen
      ((answers.behind .first).behind .second))).2
    rw [Phrase.walk, Rule.walkInverse_chain, Phrase.resolve, Probe.resolveInverse_chain, inner,
      outer]

/-- The template with every conditional replaced by the content of the branch that is chosen. -/
def Template.resolve (template : Template) (answers : Probe.Answers) : Template :=
  { template with body := Probe.resolveBody answers template.body }

/-- Probes change nothing that is shown: by whatever answers its conditionals are resolved, an
instrumented template resolves to the template itself. -/
theorem resolve_instrument (template : Template) (answers : Probe.Answers)
    (regular : Regular (.content template.body)) (unprobed : template.Unprobed) :
    template.instrument.template.resolve answers = template := by
  have same : Probe.resolveBody answers template.instrument.template.body = template.body :=
    Phrase.content.inj
      (regular.resolve_walk template.identity unprobed .empty .empty answers)
  rw [Template.resolve, same]
  rfl

/-- Answers that differ between the copies of one question. -/
def alternating : Probe.Answers :=
  fun way => if way.length % 2 = 0 then .program else .inverse

theorem resolve_instrument_panelSource : ∃ template,
    Template.read panelSource quotedIdentity = .ok template ∧
      template.instrument.changes = 3 ∧
      template.instrument.template.resolve alternating = template := by
  have succeeds : ((Template.read panelSource quotedIdentity).toOption.any fun template =>
      decide (template.Unprobed ∧ template.instrument.changes = 3)) = true := by decide +kernel
  obtain ⟨template, read, unprobed, changes⟩ := Template.exists_of_read succeeds
  obtain ⟨body, rfl, spelling⟩ := Template.read_eq_ok.mp read
  exact ⟨_, read, changes, resolve_instrument _ alternating spelling.regular unprobed⟩

end TagMigration
