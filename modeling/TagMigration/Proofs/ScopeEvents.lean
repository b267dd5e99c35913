/-
The binders of a template as events. Every body that binds names is entered once and left once,
and in between stand the events of what it holds. So the events are well bracketed, leaving never
meets an empty scope, and what is local after some of them are the names of the binders that have
been entered and not left yet.
-/
import Mathlib.Data.List.Basic
import TagMigration.Invocation.Scope

namespace TagMigration

/-! ### Well bracketed events -/

/-- Well bracketed events: every binder that is entered is left again, after what it holds. -/
inductive Balanced : List ScopeEvent → Prop where
  | nil : Balanced []
  | binder (params : List String) {inside rest : List ScopeEvent} (content : Balanced inside)
    (more : Balanced rest) : Balanced (.enter params :: (inside ++ .leave :: rest))

theorem Balanced.append {first second : List ScopeEvent} (left : Balanced first)
    (right : Balanced second) : Balanced (first ++ second) := by
  induction left with
  | nil => exact right
  | binder params content more _ inMore =>
    rw [List.cons_append, List.append_assoc, List.cons_append]
    exact .binder params content inMore

/-- A binder of the given names has been entered and not left: what follows does not begin with
well bracketed events and the leaving that belongs to it. -/
def StaysEntered (events : List ScopeEvent) (params : List String) : Prop :=
  ∃ front inside, events = front ++ .enter params :: inside ∧
    ∀ content rest, Balanced content → inside ≠ content ++ .leave :: rest

/-! ### The scope after events -/

namespace Scope

theorem afterAll_append (scope : Scope) (first second : List ScopeEvent) :
    scope.afterAll (first ++ second) = (scope.afterAll first).afterAll second :=
  List.foldl_append

/-- Well bracketed events leave the scope as it was. -/
theorem afterAll_balanced {events : List ScopeEvent} (balanced : Balanced events) (scope : Scope) :
    scope.afterAll events = scope := by
  induction balanced generalizing scope with
  | nil => rfl
  | @binder params inside rest content more inContent inMore =>
    have whole : scope.afterAll (.enter params :: (inside ++ .leave :: rest)) =
        ((scope.push params).afterAll inside).pop.afterAll rest :=
      afterAll_append (scope.push params) inside (.leave :: rest)
    rw [whole, inContent, pop_push, inMore]

/-- Inside of well bracketed events, before a binder is left, there are more binders around than
before the events. -/
theorem length_lt_of_balanced {events : List ScopeEvent} (balanced : Balanced events)
    (scope : Scope) {front back : List ScopeEvent} (cut : events = front ++ .leave :: back) :
    scope.frames.length < (scope.afterAll front).frames.length := by
  induction balanced generalizing scope front back with
  | nil => simp at cut
  | @binder params inside rest content more inContent inMore =>
    cases front with
    | nil => cases cut
    | cons event front =>
      obtain ⟨rfl, further⟩ := List.cons.inj cut
      have entered : scope.afterAll (.enter params :: front) =
        (scope.push params).afterAll front := rfl
      have grown : (scope.push params).frames.length = scope.frames.length + 1 := rfl
      rw [entered]
      rcases List.append_eq_append_iff.mp further with
        ⟨middle, rfl, behind⟩ | ⟨middle, isInside, behind⟩
      · -- The content is behind; what is left is this binder or one in the rest.
        rw [afterAll_append, afterAll_balanced content]
        cases middle with
        | nil => exact Nat.lt_of_lt_of_eq (Nat.lt_succ_self _) grown.symm
        | cons event middle =>
          obtain ⟨rfl, isRest⟩ := List.cons.inj behind
          exact inMore scope isRest
      · cases middle with
        | nil =>
          rw [List.append_nil] at isInside
          rw [← isInside, afterAll_balanced content]
          exact Nat.lt_of_lt_of_eq (Nat.lt_succ_self _) grown.symm
        | cons event middle =>
          obtain ⟨rfl, -⟩ := List.cons.inj behind
          have inside := inContent (scope.push params) isInside
          omega

end Scope

/-- The number of binders that are left among the events without having been entered among them. -/
def unmatched : List ScopeEvent → Nat
  | [] => 0
  | .enter _ :: rest => unmatched rest - 1
  | .leave :: rest => unmatched rest + 1

theorem unmatched_append {events : List ScopeEvent} (balanced : Balanced events)
    (rest : List ScopeEvent) : unmatched (events ++ rest) = unmatched rest := by
  induction balanced generalizing rest with
  | nil => rfl
  | binder params content more inContent inMore =>
    rw [List.cons_append, List.append_assoc, unmatched, inContent, List.cons_append, unmatched,
      inMore, Nat.add_sub_cancel]

/-- If a binder is left without having been entered, then the first such leaving stands behind well
bracketed events. -/
theorem unmatched_pos_iff {events : List ScopeEvent} : 0 < unmatched events ↔
    ∃ content rest, Balanced content ∧ events = content ++ .leave :: rest := by
  constructor
  · intro positive
    induction size : events.length using Nat.strongRecOn generalizing events with
    | _ size inductionHypothesis =>
      subst size
      match events with
      | [] => cases positive
      | .leave :: rest => exact ⟨[], rest, .nil, rfl⟩
      | .enter params :: tail =>
        rw [unmatched] at positive
        obtain ⟨content, rest, balanced, rfl⟩ :=
          inductionHypothesis tail.length (Nat.lt_succ_self _) (by omega) rfl
        rw [unmatched_append balanced, unmatched, Nat.add_sub_cancel] at positive
        obtain ⟨further, last, balancedFurther, rfl⟩ :=
          inductionHypothesis rest.length (by simp; omega) positive rfl
        exact ⟨_, last, .binder params balanced balancedFurther, by simp⟩
  · rintro ⟨content, rest, balanced, rfl⟩
    rw [unmatched_append balanced, unmatched]
    exact Nat.succ_pos _

theorem staysEntered_enter {events : List ScopeEvent} {params names : List String} :
    StaysEntered (.enter params :: events) names ↔
      StaysEntered events names ∨ names = params ∧ unmatched events = 0 := by
  have noneLeft : unmatched events = 0 ↔
      ∀ content rest, Balanced content → events ≠ content ++ .leave :: rest := by
    have notPositive : unmatched events = 0 ↔ ¬0 < unmatched events := by omega
    simp only [notPositive, unmatched_pos_iff, not_exists, not_and, ne_eq]
  constructor
  · rintro ⟨front, inside, equal, stays⟩
    cases front with
    | nil =>
      obtain ⟨same, rfl⟩ := List.cons.inj equal
      exact .inr ⟨(ScopeEvent.enter.inj same).symm, noneLeft.mpr stays⟩
    | cons event front =>
      obtain ⟨rfl, further⟩ := List.cons.inj equal
      exact .inl ⟨front, inside, further, stays⟩
  · rintro (⟨front, inside, rfl, stays⟩ | ⟨rfl, noLeaving⟩)
    · exact ⟨.enter params :: front, inside, rfl, stays⟩
    · exact ⟨[], events, rfl, noneLeft.mp noLeaving⟩

theorem staysEntered_leave {events : List ScopeEvent} {names : List String} :
    StaysEntered (.leave :: events) names ↔ StaysEntered events names := by
  constructor
  · rintro ⟨front, inside, equal, stays⟩
    cases front with
    | nil => cases equal
    | cons event front =>
      obtain ⟨rfl, further⟩ := List.cons.inj equal
      exact ⟨front, inside, further, stays⟩
  · rintro ⟨front, inside, rfl, stays⟩
    exact ⟨.leave :: front, inside, rfl, stays⟩

/-- The binders around a place are those that the events before it enter and do not leave, and those
that were there before, without as many as the events leave besides. -/
theorem Scope.mem_frames_afterAll {scope : Scope} {events : List ScopeEvent}
    {params : List String} :
    params ∈ (scope.afterAll events).frames ↔
      StaysEntered events params ∨ params ∈ scope.frames.drop (unmatched events) := by
  induction events generalizing scope with
  | nil =>
    refine (or_iff_right ?_).symm
    rintro ⟨front, inside, equal, -⟩
    cases front <;> cases equal
  | cons event events inductionHypothesis =>
    cases event with
    | enter names =>
      have entered : scope.afterAll (.enter names :: events) = (scope.push names).afterAll events :=
        rfl
      rw [entered, inductionHypothesis, staysEntered_enter, or_assoc, unmatched]
      refine or_congr_right ?_
      cases unmatched events with
      | zero => simp [push]
      | succ count => simp [push]
    | leave =>
      have left : scope.afterAll (.leave :: events) = scope.pop.afterAll events := rfl
      rw [left, inductionHypothesis, staysEntered_leave, unmatched, pop, List.drop_drop,
        Nat.add_comm]

theorem Scope.isLocal_afterAll {events : List ScopeEvent} {name : String} :
    (Scope.empty.afterAll events).isLocal name = true ↔
      ∃ params, StaysEntered events params ∧ name ∈ params := by
  simp only [isLocal, List.any_eq_true, List.contains_iff_mem, mem_frames_afterAll, empty,
    List.drop_nil, List.not_mem_nil, or_false]

/-! ### The binders of a template -/

/-- A body with the names that it may bind. -/
structure Body where
  params : List String
  statements : List Statement

/-- Whether a body binds names. -/
def Body.binds (body : Body) : Bool :=
  !body.params.isEmpty

mutual

/-- The bodies in a statement at any depth, each before those in it: the programs of blocks, also of
the block of a chained `else`, plain inverses, and what elements hold. -/
def Statement.bodies : Statement → List Body
  | .block _ program none => program.bodies
  | .block _ program (some ⟨body, params, chained⟩) =>
    program.bodies ++ if chained then bodiesIn body else ⟨params, body⟩ :: bodiesIn body
  | .element tags children => ⟨tags.params, children⟩ :: bodiesIn children
  | .text _ => []
  | .mustache _ => []
  | .comment _ => []
  | .curlyComment _ => []

/-- The body of a program, and those in it. -/
def Program.bodies : Program → List Body
  | ⟨body, params, _⟩ => ⟨params, body⟩ :: bodiesIn body

/-- The bodies in the statements of a body. -/
def bodiesIn : List Statement → List Body
  | [] => []
  | statement :: rest => statement.bodies ++ bodiesIn rest

end

/-- The bodies of a template that bind names, in document order. -/
def Template.binders (template : Template) : List Body :=
  (bodiesIn template.body).filter Body.binds

/-- The names of the binder that an event enters. -/
def ScopeEvent.entered? : ScopeEvent → Option (List String)
  | .enter params => some params
  | .leave => none

/-- The events are those of the given binders: each binder is entered once, in their order, and
between its entering and its leaving stand the events of what it holds. -/
structure Brackets (events : List ScopeEvent) (binders : List Body) : Prop where
  balanced : Balanced events
  entered : events.filterMap ScopeEvent.entered? = binders.map Body.params
  around : ∀ before binder after, binders = before ++ binder :: after →
    ∃ front back, events =
        front ++ .enter binder.params :: (bodyEvents binder.statements ++ .leave :: back) ∧
      front.filterMap ScopeEvent.entered? = before.map Body.params

theorem brackets_nil : Brackets [] [] :=
  ⟨.nil, rfl, fun before _ _ cut => by simp at cut⟩

theorem Brackets.append {first second : List ScopeEvent} {binders others : List Body}
    (left : Brackets first binders) (right : Brackets second others) :
    Brackets (first ++ second) (binders ++ others) := by
  refine ⟨left.balanced.append right.balanced, ?_, fun before binder after cut => ?_⟩
  · rw [List.filterMap_append, left.entered, right.entered, List.map_append]
  · rcases List.append_eq_append_iff.mp cut with ⟨middle, rfl, behind⟩ | ⟨middle, isBefore, behind⟩
    · obtain ⟨front, back, rfl, entered⟩ := right.around middle binder after behind
      refine ⟨first ++ front, back, by simp, ?_⟩
      rw [List.filterMap_append, left.entered, entered, List.map_append]
    · cases middle with
      | nil =>
        rw [List.append_nil] at isBefore
        obtain ⟨front, back, rfl, entered⟩ := right.around [] binder after behind.symm
        refine ⟨first ++ front, back, by simp, ?_⟩
        rw [List.filterMap_append, left.entered, entered, isBefore, List.map_nil, List.append_nil]
      | cons other middle =>
        obtain ⟨rfl, -⟩ := List.cons.inj behind
        obtain ⟨front, back, rfl, entered⟩ := left.around before binder middle isBefore
        exact ⟨front, back ++ second, by simp, entered⟩

/-- A body adds one binder around those in it if it binds names. -/
theorem Brackets.body {statements : List Statement} {binders : List Body}
    (inside : Brackets (bodyEvents statements) binders) (params : List String) :
    Brackets (ScopeEvent.around params (bodyEvents statements))
      ([⟨params, statements⟩].filter Body.binds ++ binders) := by
  rw [ScopeEvent.around]
  cases isEmpty : params.isEmpty with
  | true =>
    have unbound : [(⟨params, statements⟩ : Body)].filter Body.binds = [] := by
      simp [Body.binds, isEmpty]
    rw [if_pos rfl, unbound]
    exact inside
  | false =>
    have bound : [(⟨params, statements⟩ : Body)].filter Body.binds = [⟨params, statements⟩] := by
      simp [Body.binds, isEmpty]
    rw [if_neg Bool.false_ne_true, bound]
    refine ⟨.binder params inside.balanced .nil, ?_, fun before binder after cut => ?_⟩
    · simp [ScopeEvent.entered?, inside.entered]
    · cases before with
      | nil =>
        obtain ⟨rfl, -⟩ := List.cons.inj cut
        exact ⟨[], [], rfl, rfl⟩
      | cons other before =>
        obtain ⟨rfl, further⟩ := List.cons.inj cut
        obtain ⟨front, back, equal, entered⟩ := inside.around before binder after further
        refine ⟨.enter params :: front, back ++ [.leave], by simp [equal], ?_⟩
        simp [ScopeEvent.entered?, entered]

mutual

theorem Statement.brackets : ∀ statement : Statement,
    Brackets statement.scopeEvents (statement.bodies.filter Body.binds)
  | .block tags program none => by
    rw [Statement.scopeEvents, Statement.bodies]
    exact program.brackets
  | .block tags program (some ⟨body, params, true⟩) => by
    rw [Statement.scopeEvents, Statement.bodies, if_pos rfl, List.filter_append]
    exact program.brackets.append (brackets_bodiesIn body)
  | .block tags program (some ⟨body, params, false⟩) => by
    rw [Statement.scopeEvents, Statement.bodies, if_neg Bool.false_ne_true, List.filter_append,
      ← List.singleton_append, List.filter_append]
    exact program.brackets.append ((brackets_bodiesIn body).body params)
  | .element tags children => by
    rw [Statement.scopeEvents, Statement.bodies, ← List.singleton_append, List.filter_append]
    exact (brackets_bodiesIn children).body tags.params
  | .text _ => brackets_nil
  | .mustache _ => brackets_nil
  | .comment _ => brackets_nil
  | .curlyComment _ => brackets_nil

theorem Program.brackets : ∀ program : Program,
    Brackets program.scopeEvents (program.bodies.filter Body.binds)
  | ⟨body, params, chained⟩ => by
    rw [Program.scopeEvents, Program.bodies, ← List.singleton_append, List.filter_append]
    exact (brackets_bodiesIn body).body params

theorem brackets_bodiesIn : ∀ body : List Statement,
    Brackets (bodyEvents body) ((bodiesIn body).filter Body.binds)
  | [] => brackets_nil
  | statement :: rest => by
    rw [bodyEvents, bodiesIn, List.filter_append]
    exact statement.brackets.append (brackets_bodiesIn rest)

end

/-- The events of a template are those of the bodies in it that bind names: each of them is entered
once and left once, in document order, with the events of what it holds in between. In the end no
binder is around. A binder is left only where there is one around, and wherever the events are
cut, what is local there are the names of the binders that were entered and not left before. -/
theorem scopeEvents_brackets (template : Template) :
    Brackets template.scopeEvents template.binders ∧
      Scope.empty.afterAll template.scopeEvents = .empty ∧
      ∀ front back, template.scopeEvents = front ++ back →
        (back.head? = some .leave → (Scope.empty.afterAll front).frames ≠ []) ∧
        ∀ name, (Scope.empty.afterAll front).isLocal name = true ↔
          ∃ params, StaysEntered front params ∧ name ∈ params := by
  have brackets : Brackets template.scopeEvents template.binders := brackets_bodiesIn template.body
  refine ⟨brackets, Scope.afterAll_balanced brackets.balanced .empty, fun front back cut => ?_⟩
  refine ⟨fun leaves => ?_, fun name => Scope.isLocal_afterAll⟩
  obtain ⟨rest, rfl⟩ := List.head?_eq_some_iff.mp leaves
  have more := Scope.length_lt_of_balanced brackets.balanced .empty cut
  exact List.length_pos_iff.mp (Nat.zero_lt_of_lt more)

end TagMigration
