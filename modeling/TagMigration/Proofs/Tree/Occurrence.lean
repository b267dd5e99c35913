/-
The statements of a tree, each with the names that are bound around it. Whether an invocation is
replaced depends on its scope, so a condition on what a rule replaces is a condition on
occurrences. They come in document order, as the statements do, and the block of a chained `else`
is none of them.
-/
import TagMigration.Invocation.Scope
import TagMigration.Proofs.Tree.Phrase

namespace TagMigration

/-- A statement in its scope. -/
structure Occurrence where
  scope : Scope
  statement : Statement

mutual

/-- What occurs in a statement, at any depth. -/
def Statement.occurrences (scope : Scope) : Statement → List Occurrence
  | .block _ program inverse => program.occurrences scope ++ inverseOccurrences scope inverse
  | .element tags children => bodyOccurrences (scope.within tags.params) children
  | .text _ => []
  | .mustache _ => []
  | .comment _ => []
  | .curlyComment _ => []

/-- What occurs in a body, at any depth. -/
def bodyOccurrences (scope : Scope) : List Statement → List Occurrence
  | [] => []
  | statement :: rest =>
    ⟨scope, statement⟩ :: (statement.occurrences scope ++ bodyOccurrences scope rest)

/-- What occurs in a program, inside the names that it binds. -/
def Program.occurrences (scope : Scope) : Program → List Occurrence
  | ⟨body, params, _⟩ => bodyOccurrences (scope.within params) body

/-- What occurs in an inverse. -/
def inverseOccurrences (scope : Scope) : Option Program → List Occurrence
  | none => []
  | some ⟨body, _, true⟩ => chainOccurrences scope body
  | some ⟨body, params, false⟩ => bodyOccurrences (scope.within params) body

/-- What occurs in the statements of a chained inverse. -/
def chainOccurrences (scope : Scope) : List Statement → List Occurrence
  | [] => []
  | statement :: rest => statement.occurrences scope ++ chainOccurrences scope rest

end

/-- What occurs in a phrase. -/
def Phrase.occurrences (scope : Scope) : Phrase → List Occurrence
  | .content body => bodyOccurrences scope body
  | .inverse _ others => inverseOccurrences scope others

/-- What occurs in a template. -/
def Template.occurrences (template : Template) : List Occurrence :=
  bodyOccurrences .empty template.body

section Members

variable {scope : Scope} {statement : Statement} {body : List Statement} {occurrence : Occurrence}

theorem mem_occurrences_self : ⟨scope, statement⟩ ∈ bodyOccurrences scope (statement :: body) := by
  rw [bodyOccurrences]
  exact List.mem_cons_self

theorem mem_occurrences_inside (member : occurrence ∈ statement.occurrences scope) :
    occurrence ∈ bodyOccurrences scope (statement :: body) := by
  rw [bodyOccurrences]
  exact List.mem_cons_of_mem _ (List.mem_append_left _ member)

theorem mem_occurrences_more (member : occurrence ∈ bodyOccurrences scope body) :
    occurrence ∈ bodyOccurrences scope (statement :: body) := by
  rw [bodyOccurrences]
  exact List.mem_cons_of_mem _ (List.mem_append_right _ member)

theorem forall_bodyOccurrences_cons {property : Occurrence → Prop} :
    (∀ occurrence ∈ bodyOccurrences scope (statement :: body), property occurrence) ↔
      property ⟨scope, statement⟩ ∧
        (∀ occurrence ∈ statement.occurrences scope, property occurrence) ∧
        ∀ occurrence ∈ bodyOccurrences scope body, property occurrence := by
  rw [bodyOccurrences, List.forall_mem_cons, List.forall_mem_append]

end Members

theorem inverseOccurrences_chain (scope : Scope) (tags : BlockTags) (program : List Statement)
    (params : List String) (continued : Bool) (inverse : Option Program) (bound : List String) :
    inverseOccurrences scope
        (some ⟨[.block tags ⟨program, params, continued⟩ inverse], bound, true⟩) =
      bodyOccurrences (scope.within params) program ++ inverseOccurrences scope inverse := by
  rw [inverseOccurrences, chainOccurrences, chainOccurrences, List.append_nil]
  rfl

/-- Without their scopes, the occurrences in a phrase are its statements. -/
theorem Regular.map_occurrences {phrase : Phrase} (regular : Regular phrase) :
    ∀ scope, (phrase.occurrences scope).map Occurrence.statement = phrase.statements := by
  induction regular with
  | nil =>
    intro scope
    rw [Phrase.occurrences, bodyOccurrences]
    rfl
  | @leaf statement body isLeaf more inMore =>
    intro scope
    have noneInside : statement.occurrences scope = [] := by
      cases statement <;> first | rfl | cases isLeaf
    rw [Phrase.occurrences, bodyOccurrences, noneInside, Phrase.statements, bodyStatements,
      Statement.inside_of_isLeaf isLeaf]
    exact congrArg (statement :: ·) (inMore scope)
  | @element tags children body content more inContent inMore =>
    intro scope
    have sameInside : (bodyOccurrences (scope.within tags.params) children).map
        Occurrence.statement = bodyStatements children := inContent _
    have sameMore : (bodyOccurrences scope body).map Occurrence.statement = bodyStatements body :=
      inMore scope
    rw [Phrase.occurrences, bodyOccurrences, List.map_cons, List.map_append, Statement.occurrences,
      sameInside, sameMore]
    rfl
  | @block tags program body params chained inverse content others more inContent inOthers inMore =>
    intro scope
    have sameInside : (bodyOccurrences (scope.within params) program).map Occurrence.statement =
        bodyStatements program := inContent _
    have sameOthers : (inverseOccurrences scope inverse).map Occurrence.statement =
        inverseStatements inverse := inOthers scope
    have sameMore : (bodyOccurrences scope body).map Occurrence.statement = bodyStatements body :=
      inMore scope
    rw [Phrase.occurrences, bodyOccurrences, List.map_cons, List.map_append, Statement.occurrences,
      Program.occurrences, List.map_append, sameInside, sameOthers, sameMore]
    rfl
  | noInverse =>
    intro scope
    rw [Phrase.occurrences, inverseOccurrences]
    rfl
  | elseBody content inContent =>
    intro scope
    rw [Phrase.occurrences, inverseOccurrences]
    exact inContent _
  | @elseBlock tags chained program params bound continued inverse content others inContent
      inOthers =>
    intro scope
    have sameInside : (bodyOccurrences (scope.within params) program).map Occurrence.statement =
        bodyStatements program := inContent _
    have sameOthers : (inverseOccurrences scope inverse).map Occurrence.statement =
        inverseStatements inverse := inOthers scope
    rw [Phrase.occurrences, inverseOccurrences_chain, Phrase.statements, inverseStatements_chain,
      List.map_append, sameInside, sameOthers]

theorem Regular.mem_statements {phrase : Phrase} (regular : Regular phrase) {scope : Scope}
    {occurrence : Occurrence} (member : occurrence ∈ phrase.occurrences scope) :
    occurrence.statement ∈ phrase.statements := by
  rw [← regular.map_occurrences scope]
  exact List.mem_map_of_mem member

end TagMigration
