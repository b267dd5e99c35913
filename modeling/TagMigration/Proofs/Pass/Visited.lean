/-
Visiting does what walking does. What a visitor is told between two places on one level of a tree is
well bracketed, so it leaves the scope as it was, and inside a body the visitor knows of one binder
more. So a visitor answers each statement in the scope that the walk has carried to it: the scope of
a place is what the events before it leave behind.
-/
import TagMigration.Pass.Visitor
import TagMigration.Proofs.ScopeEvents

namespace TagMigration

namespace Visitor

theorem scope_tell (visitor : Visitor) (event : ScopeEvent) :
    (visitor.tell event).scope = visitor.scope.after event :=
  Scope.afterAll_append .empty visitor.told [event]

theorem scope_of_balanced (visitor : Visitor) {told : List ScopeEvent} (balanced : Balanced told)
    (seen : Seen) : (⟨visitor.told ++ told, seen⟩ : Visitor).scope = visitor.scope := by
  rw [scope, Scope.afterAll_append, Scope.afterAll_balanced balanced]
  rfl

end Visitor

namespace Rule

variable {rule : Rule}

/-- A visit does what a walk does, wherever the visitor is: it has the same outcome, it has replaced
the same places, and what the visitor has been told meanwhile is well bracketed and among the given
events. Unless the rule leaves statements alone, it has been told all of them. -/
def Mirrors {α : Type} (rule : Rule) (events : List ScopeEvent) (walk : Scope → Seen → α × Seen)
    (visit : Visitor → α × Visitor) : Prop :=
  ∀ visitor : Visitor, ∃ told,
    visit visitor =
      ((walk visitor.scope visitor.seen).1,
        ⟨visitor.told ++ told, (walk visitor.scope visitor.seen).2⟩) ∧
    Balanced told ∧ told.Sublist events ∧
    ((∀ statement, rule.leaves statement = false) → told = events)

/-! ### Steps -/

theorem mirrors_pure {α : Type} (value : α) :
    rule.Mirrors [] (fun _ seen => (value, seen)) fun visitor => (value, visitor) :=
  fun visitor => ⟨[], by rw [List.append_nil], .nil, .slnil, fun _ => rfl⟩

/-- A statement that is left alone tells nothing. -/
theorem mirrors_left {statement : Statement} (left : rule.leaves statement = true) :
    rule.Mirrors statement.scopeEvents (fun _ seen => (statement, seen))
      fun visitor => (statement, visitor) :=
  fun visitor => ⟨[], by rw [List.append_nil], .nil, List.nil_sublist _, fun noneLeft => by
    rw [noneLeft] at left
    cases left⟩

theorem mirrors_answer (statement : Statement) :
    rule.Mirrors [] (fun scope seen => rule.settle scope seen statement)
      fun visitor => rule.answer visitor statement :=
  fun visitor => ⟨[], by rw [List.append_nil]; rfl, .nil, .slnil, fun _ => rfl⟩

/-- What comes next is visited in the same scope. -/
theorem Mirrors.bind {α β : Type} {events more : List ScopeEvent} {walk : Scope → Seen → α × Seen}
    {visit : Visitor → α × Visitor} {walkNext : α → Scope → Seen → β × Seen}
    {visitNext : α → Visitor → β × Visitor} (first : rule.Mirrors events walk visit)
    (second : ∀ value, rule.Mirrors more (walkNext value) (visitNext value)) :
    rule.Mirrors (events ++ more)
      (fun scope seen => walkNext (walk scope seen).1 scope (walk scope seen).2)
      fun visitor => visitNext (visit visitor).1 (visit visitor).2 := by
  intro visitor
  obtain ⟨told, equal, balanced, among, all⟩ := first visitor
  obtain ⟨further, equalNext, balancedNext, amongMore, allMore⟩ :=
    second (visit visitor).1 (visit visitor).2
  refine ⟨told ++ further, ?_, balanced.append balancedNext, among.append amongMore, ?_⟩
  · show visitNext (visit visitor).1 (visit visitor).2 = _
    rw [equalNext]
    simp only [equal, visitor.scope_of_balanced balanced, List.append_assoc]
  · intro noneLeft
    rw [all noneLeft, allMore noneLeft]

/-- A step that tells nothing. -/
theorem Mirrors.quietly {α β : Type} {events : List ScopeEvent} {walk : Scope → Seen → α × Seen}
    {visit : Visitor → α × Visitor} {walkNext : α → Scope → Seen → β × Seen}
    {visitNext : α → Visitor → β × Visitor} (first : rule.Mirrors events walk visit)
    (second : ∀ value, rule.Mirrors [] (walkNext value) (visitNext value)) :
    rule.Mirrors events
      (fun scope seen => walkNext (walk scope seen).1 scope (walk scope seen).2)
      fun visitor => visitNext (visit visitor).1 (visit visitor).2 := by
  rw [← List.append_nil events]
  exact first.bind second

/-- A body that binds names is visited in the scope inside of its binder. -/
theorem Mirrors.within {α : Type} {events : List ScopeEvent} {walk : Scope → Seen → α × Seen}
    {visit : Visitor → α × Visitor} (inside : rule.Mirrors events walk visit)
    (params : List String) :
    rule.Mirrors (ScopeEvent.around params events)
      (fun scope seen => walk (scope.within params) seen)
      fun visitor => visitor.within params visit := by
  intro visitor
  simp only [ScopeEvent.around, Scope.within, Visitor.within]
  cases params.isEmpty with
  | true => exact inside visitor
  | false =>
    obtain ⟨told, equal, balanced, among, all⟩ := inside (visitor.tell (.enter params))
    rw [visitor.scope_tell] at equal
    refine ⟨.enter params :: (told ++ [.leave]), ?_, .binder params balanced .nil,
      (among.append_right _).cons_cons _, fun noneLeft => by rw [all noneLeft]; rfl⟩
    rw [if_neg Bool.false_ne_true, if_neg Bool.false_ne_true, equal]
    simp only [Visitor.tell, List.append_assoc, List.cons_append, List.nil_append]
    rfl

end Rule

/-! ### A whole tree -/

/-- The binders of an inverse in document order. -/
def inverseEvents : Option Program → List ScopeEvent
  | none => []
  | some ⟨body, _, true⟩ => bodyEvents body
  | some ⟨body, params, false⟩ => ScopeEvent.around params (bodyEvents body)

theorem Statement.scopeEvents_block (tags : BlockTags) (program : Program) :
    ∀ inverse, (Statement.block tags program inverse).scopeEvents =
      program.scopeEvents ++ inverseEvents inverse
  | none => by rw [Statement.scopeEvents, inverseEvents, List.append_nil]
  | some ⟨_, _, true⟩ => by rw [Statement.scopeEvents, inverseEvents]
  | some ⟨_, _, false⟩ => by rw [Statement.scopeEvents, inverseEvents]

namespace Rule

mutual

theorem mirrors_visit (rule : Rule) : ∀ statement : Statement,
    rule.Mirrors statement.scopeEvents (fun scope seen => rule.walk scope seen statement)
      fun visitor => rule.visit visitor statement
  | .block tags program inverse => by
    cases left : rule.leaves (.block tags program inverse) with
    | true =>
      simp only [Rule.walk, Rule.visit, left, if_true]
      exact mirrors_left left
    | false =>
      simp only [Rule.walk, Rule.visit, left, if_neg Bool.false_ne_true]
      rw [Statement.scopeEvents_block]
      exact (mirrors_visitProgram rule program).bind fun program =>
        (mirrors_visitInverse rule inverse).quietly fun inverse =>
          mirrors_answer (.block tags program inverse)
  | .element tags children =>
    ((mirrors_visitBody rule children).within tags.params).quietly fun children =>
      mirrors_answer (.element tags children)
  | .text run => mirrors_answer (.text run)
  | .mustache tag => mirrors_answer (.mustache tag)
  | .comment remark => mirrors_answer (.comment remark)
  | .curlyComment remark => mirrors_answer (.curlyComment remark)

theorem mirrors_visitBody (rule : Rule) : ∀ body : List Statement,
    rule.Mirrors (bodyEvents body) (fun scope seen => rule.walkBody scope seen body)
      fun visitor => rule.visitBody visitor body
  | [] => mirrors_pure []
  | statement :: rest =>
    (mirrors_visit rule statement).bind fun statement =>
      (mirrors_visitBody rule rest).quietly fun rest => mirrors_pure (statement :: rest)

theorem mirrors_visitProgram (rule : Rule) : ∀ program : Program,
    rule.Mirrors program.scopeEvents (fun scope seen => rule.walkProgram scope seen program)
      fun visitor => rule.visitProgram visitor program
  | ⟨body, params, chained⟩ =>
    ((mirrors_visitBody rule body).within params).quietly fun body =>
      mirrors_pure (Program.mk body params chained)

theorem mirrors_visitInverse (rule : Rule) : ∀ inverse : Option Program,
    rule.Mirrors (inverseEvents inverse) (fun scope seen => rule.walkInverse scope seen inverse)
      fun visitor => rule.visitInverse visitor inverse
  | none => mirrors_pure none
  | some ⟨body, params, true⟩ =>
    (mirrors_visitChain rule body).quietly fun body =>
      mirrors_pure (some (Program.mk body params true))
  | some ⟨body, params, false⟩ =>
    ((mirrors_visitBody rule body).within params).quietly fun body =>
      mirrors_pure (some (Program.mk body params false))

theorem mirrors_visitChain (rule : Rule) : ∀ body : List Statement,
    rule.Mirrors (bodyEvents body) (fun scope seen => rule.walkChain scope seen body)
      fun visitor => rule.visitChain visitor body
  | [] => mirrors_pure []
  | statement :: rest => by
    cases statement with
    | block tags program inverse =>
      rw [bodyEvents, Statement.scopeEvents_block, List.append_assoc]
      exact (mirrors_visitProgram rule program).bind fun program =>
        (mirrors_visitInverse rule inverse).bind fun inverse =>
          (mirrors_visitChain rule rest).quietly fun rest =>
            mirrors_pure (.block tags program inverse :: rest)
    | _ =>
      exact (mirrors_visit rule _).bind fun statement =>
        (mirrors_visitChain rule rest).quietly fun rest => mirrors_pure (statement :: rest)

end

/-- A pass that is told of the binders does what the walk does, and the events that it is told are
among those of the template and leave no binder around. If the rule leaves no statement alone, they
are the events of the template. -/
theorem runVisitor_eq (rule : Rule) (template : Template) :
    ∃ told, rule.runVisitor template = (rule.run template, told) ∧
      Scope.empty.afterAll told = .empty ∧ told.Sublist template.scopeEvents ∧
      ((∀ statement, rule.leaves statement = false) → told = template.scopeEvents) := by
  obtain ⟨told, equal, balanced, among, all⟩ := mirrors_visitBody rule template.body .start
  refine ⟨told, ?_, Scope.afterAll_balanced balanced .empty, among, all⟩
  have visited : rule.visitBody .start template.body = _ := equal
  rw [runVisitor, visited]
  rfl

end Rule

end TagMigration
