/-
The walk without its list of places. A pass keeps the places where it has replaced a
statement, so as not to replace copies of one statement twice. In a template that was read no
two invocations begin at the same place, and there the list is idle: the walk is a plain
recursion that replaces whatever its rule replaces, and the size of the list is the number
of replacements.
-/
import TagMigration.Pass.TagForm
import TagMigration.Proofs.Tree.Phrase

namespace TagMigration

namespace Rule

/-! ### The plain recursion -/

/-- The replacement of a statement, which counts as one change, or the statement itself. -/
def replaced (rule : Rule) (scope : Scope) (statement : Statement) : Statement × Nat :=
  match rule.replace? scope statement with
  | some replacement => (replacement, 1)
  | none => (statement, 0)

mutual

/-- A statement with all that the rule replaces replaced, and the number of replacements. -/
def rewrite (rule : Rule) (scope : Scope) : Statement → Statement × Nat
  | .block tags program inverse =>
    if rule.leaves (.block tags program inverse) then (.block tags program inverse, 0)
    else
      let (program, first) := rule.rewriteProgram scope program
      let (inverse, second) := rule.rewriteInverse scope inverse
      let (statement, third) := rule.replaced scope (.block tags program inverse)
      (statement, first + second + third)
  | .element tags children =>
    let (children, first) := rule.rewriteBody (scope.within tags.params) children
    let (statement, second) := rule.replaced scope (.element tags children)
    (statement, first + second)
  | .text run => rule.replaced scope (.text run)
  | .mustache tag => rule.replaced scope (.mustache tag)
  | .comment remark => rule.replaced scope (.comment remark)
  | .curlyComment remark => rule.replaced scope (.curlyComment remark)

/-- A body with all that the rule replaces replaced. -/
def rewriteBody (rule : Rule) (scope : Scope) : List Statement → List Statement × Nat
  | [] => ([], 0)
  | statement :: rest =>
    let (statement, first) := rule.rewrite scope statement
    let (rest, second) := rule.rewriteBody scope rest
    (statement :: rest, first + second)

/-- A program with all that the rule replaces replaced, inside the names that it binds. -/
def rewriteProgram (rule : Rule) (scope : Scope) : Program → Program × Nat
  | ⟨body, params, chained⟩ =>
    let (body, count) := rule.rewriteBody (scope.within params) body
    (⟨body, params, chained⟩, count)

/-- An inverse with all that the rule replaces replaced. -/
def rewriteInverse (rule : Rule) (scope : Scope) : Option Program → Option Program × Nat
  | none => (none, 0)
  | some ⟨body, params, true⟩ =>
    let (body, count) := rule.rewriteChain scope body
    (some ⟨body, params, true⟩, count)
  | some ⟨body, params, false⟩ =>
    let (body, count) := rule.rewriteBody (scope.within params) body
    (some ⟨body, params, false⟩, count)

/-- The body of a chained inverse: a block in it is neither left alone nor replaced. -/
def rewriteChain (rule : Rule) (scope : Scope) : List Statement → List Statement × Nat
  | [] => ([], 0)
  | .block tags program inverse :: rest =>
    let (program, first) := rule.rewriteProgram scope program
    let (inverse, second) := rule.rewriteInverse scope inverse
    let (rest, third) := rule.rewriteChain scope rest
    (.block tags program inverse :: rest, first + second + third)
  | statement :: rest =>
    let (statement, first) := rule.rewrite scope statement
    let (rest, second) := rule.rewriteChain scope rest
    (statement :: rest, first + second)

end

/-- A phrase with all that the rule replaces replaced, and the number of replacements. -/
def rewritePhrase (rule : Rule) (scope : Scope) : Phrase → Phrase × Nat
  | .content body => (.content (rule.rewriteBody scope body).1, (rule.rewriteBody scope body).2)
  | .inverse tags others =>
    (.inverse tags (rule.rewriteInverse scope others).1, (rule.rewriteInverse scope others).2)

section Equations

variable (rule : Rule) (scope : Scope)

theorem rewriteBody_cons (statement : Statement) (rest : List Statement) :
    rule.rewriteBody scope (statement :: rest) =
      ((rule.rewrite scope statement).1 :: (rule.rewriteBody scope rest).1,
        (rule.rewrite scope statement).2 + (rule.rewriteBody scope rest).2) :=
  rfl

theorem rewrite_leaf {statement : Statement} (isLeaf : statement.isLeaf = true) :
    rule.rewrite scope statement = rule.replaced scope statement := by
  cases statement <;> first | cases isLeaf; done | rfl

theorem rewrite_element (tags : ElementTags) (children : List Statement) :
    rule.rewrite scope (.element tags children) =
      let inner := rule.rewriteBody (scope.within tags.params) children
      let outer := rule.replaced scope (.element tags inner.1)
      (outer.1, inner.2 + outer.2) :=
  rfl

theorem rewrite_left {tags : BlockTags} {program : Program} {inverse : Option Program}
    (left : rule.leaves (.block tags program inverse) = true) :
    rule.rewrite scope (.block tags program inverse) = (.block tags program inverse, 0) :=
  if_pos left

theorem rewrite_block {tags : BlockTags} {program : List Statement} {params : List String}
    {chained : Bool} {inverse : Option Program}
    (walked : rule.leaves (.block tags ⟨program, params, chained⟩ inverse) = false) :
    rule.rewrite scope (.block tags ⟨program, params, chained⟩ inverse) =
      let inner := rule.rewriteBody (scope.within params) program
      let others := rule.rewriteInverse scope inverse
      let outer := rule.replaced scope (.block tags ⟨inner.1, params, chained⟩ others.1)
      (outer.1, inner.2 + others.2 + outer.2) := by
  show (if rule.leaves _ = true then _ else _) = _
  rw [if_neg (Bool.eq_false_iff.mp walked)]
  rfl

theorem rewriteInverse_else (body : List Statement) (params : List String) :
    rule.rewriteInverse scope (some ⟨body, params, false⟩) =
      let inner := rule.rewriteBody (scope.within params) body
      (some ⟨inner.1, params, false⟩, inner.2) :=
  rfl

theorem rewriteInverse_chain (tags : BlockTags) (program : List Statement) (params : List String)
    (continued : Bool) (inverse : Option Program) (bound : List String) :
    rule.rewriteInverse scope
        (some ⟨[.block tags ⟨program, params, continued⟩ inverse], bound, true⟩) =
      let inner := rule.rewriteBody (scope.within params) program
      let others := rule.rewriteInverse scope inverse
      (some ⟨[.block tags ⟨inner.1, params, continued⟩ others.1], bound, true⟩,
        inner.2 + others.2) :=
  rfl

theorem isSome_rewriteInverse (inverse : Option Program) :
    (rule.rewriteInverse scope inverse).1.isSome = inverse.isSome := by
  rcases inverse with _ | ⟨body, params, _ | _⟩
  · rfl
  · rfl
  · rfl

/-! ### The walk, one step at a time -/

variable (seen : Seen)

theorem walkBody_cons (statement : Statement) (rest : List Statement) :
    rule.walkBody scope seen (statement :: rest) =
      let first := rule.walk scope seen statement
      let more := rule.walkBody scope first.2 rest
      (first.1 :: more.1, more.2) :=
  rfl

theorem walk_leaf {statement : Statement} (isLeaf : statement.isLeaf = true) :
    rule.walk scope seen statement = rule.settle scope seen statement := by
  cases statement <;> first | cases isLeaf; done | rfl

theorem walk_element (tags : ElementTags) (children : List Statement) :
    rule.walk scope seen (.element tags children) =
      let inner := rule.walkBody (scope.within tags.params) seen children
      rule.settle scope inner.2 (.element tags inner.1) :=
  rfl

theorem walk_left {tags : BlockTags} {program : Program} {inverse : Option Program}
    (left : rule.leaves (.block tags program inverse) = true) :
    rule.walk scope seen (.block tags program inverse) = (.block tags program inverse, seen) :=
  if_pos left

theorem walk_block {tags : BlockTags} {program : List Statement} {params : List String}
    {chained : Bool} {inverse : Option Program}
    (walked : rule.leaves (.block tags ⟨program, params, chained⟩ inverse) = false) :
    rule.walk scope seen (.block tags ⟨program, params, chained⟩ inverse) =
      let inner := rule.walkBody (scope.within params) seen program
      let others := rule.walkInverse scope inner.2 inverse
      rule.settle scope others.2 (.block tags ⟨inner.1, params, chained⟩ others.1) := by
  show (if rule.leaves _ = true then _ else _) = _
  rw [if_neg (Bool.eq_false_iff.mp walked)]

theorem walkInverse_else (body : List Statement) (params : List String) :
    rule.walkInverse scope seen (some ⟨body, params, false⟩) =
      let inner := rule.walkBody (scope.within params) seen body
      (some ⟨inner.1, params, false⟩, inner.2) :=
  rfl

theorem walkInverse_chain (tags : BlockTags) (program : List Statement) (params : List String)
    (continued : Bool) (inverse : Option Program) (bound : List String) :
    rule.walkInverse scope seen
        (some ⟨[.block tags ⟨program, params, continued⟩ inverse], bound, true⟩) =
      let inner := rule.walkBody (scope.within params) seen program
      let others := rule.walkInverse scope inner.2 inverse
      (some ⟨[.block tags ⟨inner.1, params, continued⟩ others.1], bound, true⟩, others.2) :=
  rfl

end Equations

end Rule

/-! ### Places that have not been seen -/

/-- The places are known, distinct and none of those seen. -/
structure Fresh (seen : Seen) (places : List (Option Nat)) : Prop where
  known : none ∉ places
  distinct : places.Nodup
  unseen : ∀ id ∈ seen.ids, some id ∉ places

/-- Between two points of a walk, `count` places were seen for the first time, all of them among
the given ones. -/
structure Visits (before after : Seen) (places : List (Option Nat)) (count : Nat) : Prop where
  size : after.size = before.size + count
  ids : ∀ id ∈ after.ids, id ∈ before.ids ∨ some id ∈ places

section Places

variable {seen after last : Seen} {first second : List (Option Nat)} {count more : Nat}

theorem Fresh.left (fresh : Fresh seen (first ++ second)) : Fresh seen first where
  known member := fresh.known (List.mem_append_left second member)
  distinct := (List.nodup_append.mp fresh.distinct).1
  unseen id member place := fresh.unseen id member (List.mem_append_left second place)

theorem Fresh.right (fresh : Fresh seen (first ++ second)) (visits : Visits seen after first count) :
    Fresh after second where
  known member := fresh.known (List.mem_append_right first member)
  distinct := (List.nodup_append.mp fresh.distinct).2.1
  unseen id member place := by
    rcases visits.ids id member with old | new
    · exact fresh.unseen id old (List.mem_append_right first place)
    · exact (List.nodup_append.mp fresh.distinct).2.2 _ new _ place rfl

theorem Fresh.perm (fresh : Fresh seen first) (perm : second.Perm first) : Fresh seen second where
  known member := fresh.known (perm.mem_iff.mp member)
  distinct := perm.nodup_iff.mpr fresh.distinct
  unseen id member place := fresh.unseen id member (perm.mem_iff.mp place)

theorem visits_refl (seen : Seen) (places : List (Option Nat)) : Visits seen seen places 0 :=
  ⟨rfl, fun _ member => .inl member⟩

theorem Visits.append (visits : Visits seen after first count)
    (then' : Visits after last second more) : Visits seen last (first ++ second) (count + more) where
  size := by rw [then'.size, visits.size, Nat.add_assoc]
  ids id member := by
    rcases then'.ids id member with old | new
    · exact (visits.ids id old).imp_right (List.mem_append_left second)
    · exact .inr (List.mem_append_right first new)

theorem Visits.mono (visits : Visits seen after first count)
    (subset : ∀ place ∈ first, place ∈ second) : Visits seen after second count :=
  ⟨visits.size, fun id member => (visits.ids id member).imp_right (subset _)⟩

end Places

/-! ### The walk is the plain recursion -/

/-- A rule that replaces nothing but invocations. -/
def Rule.OnInvocations (rule : Rule) : Prop :=
  ∀ scope statement, statement.invocation? = none → rule.replace? scope statement = none

namespace Rule

variable {rule : Rule} (scope : Scope)

theorem settle_of_none {statement : Statement} (stays : rule.replace? scope statement = none)
    (seen : Seen) : rule.settle scope seen statement = (statement, seen) := by
  rw [settle, stays]

theorem replaced_of_none {statement : Statement} (stays : rule.replace? scope statement = none) :
    rule.replaced scope statement = (statement, 0) := by
  rw [replaced, stays]

theorem replaced_of_some {statement replacement : Statement}
    (replaces : rule.replace? scope statement = some replacement) :
    rule.replaced scope statement = (replacement, 1) := by
  rw [replaced, replaces]

/-- A rule that replaces nothing but invocations leaves texts as they are. -/
theorem rewrite_text (only : rule.OnInvocations) (run : TextRun) :
    rule.rewrite scope (.text run) = (.text run, 0) := by
  rw [rewrite_leaf _ _ rfl, replaced_of_none scope (only scope _ rfl)]

/-- At a place that was not seen, a statement is replaced if the rule replaces it. -/
theorem settle_of_fresh {statement : Statement} {seen : Seen}
    (fresh : Fresh seen [startOf statement.span]) :
    (rule.settle scope seen statement).1 = (rule.replaced scope statement).1 ∧
      Visits seen (rule.settle scope seen statement).2 [startOf statement.span]
        (rule.replaced scope statement).2 := by
  cases replaces : rule.replace? scope statement with
  | none =>
    rw [settle_of_none scope replaces, replaced_of_none scope replaces]
    exact ⟨rfl, visits_refl seen _⟩
  | some replacement =>
    cases spanEq : statement.span with
    | none =>
      rw [spanEq] at fresh
      exact absurd (List.mem_singleton.mpr rfl) fresh.known
    | some span =>
      rw [spanEq] at fresh
      have unseen : seen.contains span.start = false := by
        refine Bool.eq_false_iff.mpr fun found => ?_
        exact fresh.unseen span.start (List.elem_iff.mp found) (List.mem_singleton.mpr rfl)
      rw [settle, replaces, spanEq, replaced_of_some scope replaces]
      simp only [unseen, Bool.false_eq_true, if_false, Seen.insert]
      refine ⟨trivial, rfl, fun id member => ?_⟩
      rcases List.mem_cons.mp member with rfl | old
      · exact .inr (List.mem_singleton.mpr rfl)
      · exact .inl old

end Rule

/-- From the given state, the walk over the phrase is the plain recursion. -/
def Phrase.WalksPlainly (rule : Rule) (scope : Scope) (seen : Seen) : Phrase → Prop
  | .content body =>
    (rule.walkBody scope seen body).1 = (rule.rewriteBody scope body).1 ∧
      Visits seen (rule.walkBody scope seen body).2 (bodyPlaces body)
        (rule.rewriteBody scope body).2
  | .inverse _ others =>
    (rule.walkInverse scope seen others).1 = (rule.rewriteInverse scope others).1 ∧
      Visits seen (rule.walkInverse scope seen others).2 (inversePlaces others)
        (rule.rewriteInverse scope others).2

section Walk

variable {rule : Rule} {scope : Scope} {seen : Seen}

/-- A statement in front of a body. -/
theorem Rule.walksPlainly_cons {statement : Statement} {body : List Statement}
    (fresh : Fresh seen (statement.places ++ bodyPlaces body))
    (first : (rule.walk scope seen statement).1 = (rule.rewrite scope statement).1 ∧
      Visits seen (rule.walk scope seen statement).2 statement.places
        (rule.rewrite scope statement).2)
    (more : ∀ seen, Fresh seen (bodyPlaces body) →
      (Phrase.content body).WalksPlainly rule scope seen) :
    (Phrase.content (statement :: body)).WalksPlainly rule scope seen := by
  obtain ⟨same, visits⟩ := first
  obtain ⟨sameMore, visitsMore⟩ := more _ (fresh.right visits)
  rw [Phrase.WalksPlainly, walkBody_cons, rewriteBody_cons, bodyPlaces]
  exact ⟨by simp only [same, sameMore], visits.append visitsMore⟩

theorem Rule.walk_of_isLeaf (only : rule.OnInvocations) {statement : Statement}
    (isLeaf : statement.isLeaf = true) (fresh : Fresh seen statement.places) :
    (rule.walk scope seen statement).1 = (rule.rewrite scope statement).1 ∧
      Visits seen (rule.walk scope seen statement).2 statement.places
        (rule.rewrite scope statement).2 := by
  rw [rule.walk_leaf scope seen isLeaf, rule.rewrite_leaf scope isLeaf]
  cases invoked : statement.invocation? with
  | none =>
    have stays := only scope statement invoked
    rw [settle_of_none scope stays, replaced_of_none scope stays]
    exact ⟨rfl, visits_refl seen _⟩
  | some invocation =>
    cases statement with
    | mustache tag => exact settle_of_fresh scope fresh
    | block => cases isLeaf
    | _ => cases invoked

/-- In a regular phrase whose places have not been seen, the walk replaces what its rule replaces,
and sees one place for each replacement. -/
theorem Regular.walksPlainly (only : rule.OnInvocations) {phrase : Phrase}
    (regular : Regular phrase) :
    ∀ scope seen, Fresh seen phrase.places → phrase.WalksPlainly rule scope seen := by
  induction regular with
  | nil =>
    intro scope seen fresh
    exact ⟨rfl, visits_refl seen _⟩
  | leaf isLeaf more walkMore =>
    intro scope seen fresh
    exact Rule.walksPlainly_cons fresh (Rule.walk_of_isLeaf only isLeaf fresh.left)
      (walkMore scope)
  | @element tags children body content more walkChildren walkMore =>
    intro scope seen fresh
    refine Rule.walksPlainly_cons fresh ?_ (walkMore scope)
    obtain ⟨same, visits⟩ := walkChildren (scope.within tags.params) seen fresh.left
    have stays (children : List Statement) := only scope (.element tags children) rfl
    rw [rule.walk_element, rule.rewrite_element]
    simp only [Rule.settle_of_none scope (stays _), Rule.replaced_of_none scope (stays _), same]
    exact ⟨trivial, visits⟩
  | @block tags program body params chained inverse content others more walkProgram walkOthers
      walkMore =>
    intro scope seen fresh
    refine Rule.walksPlainly_cons fresh ?_ (walkMore scope)
    cases left : rule.leaves (.block tags ⟨program, params, chained⟩ inverse) with
    | true =>
      rw [rule.walk_left scope seen left, rule.rewrite_left scope left]
      exact ⟨rfl, visits_refl seen _⟩
    | false =>
      have inOrder := fresh.left.perm (List.perm_append_singleton (startOf tags.span)
        (bodyPlaces program ++ inversePlaces inverse))
      obtain ⟨same, visits⟩ := walkProgram (scope.within params) seen inOrder.left.left
      obtain ⟨sameOthers, visitsOthers⟩ := walkOthers scope _ (inOrder.left.right visits)
      have visitsBoth := visits.append visitsOthers
      have settles := @Rule.settle_of_fresh rule scope (.block tags
        ⟨(rule.rewriteBody (scope.within params) program).1, params, chained⟩
        (rule.rewriteInverse scope inverse).1) _ (inOrder.right visitsBoth)
      rw [rule.walk_block scope seen left, rule.rewrite_block scope left]
      simp only [same, sameOthers]
      exact ⟨settles.1, (visitsBoth.append settles.2).mono fun place member =>
        (List.perm_append_singleton _ _).mem_iff.mp member⟩
  | noInverse =>
    intro scope seen fresh
    exact ⟨rfl, visits_refl seen _⟩
  | @elseBody tags body params content walkBody =>
    intro scope seen fresh
    obtain ⟨same, visits⟩ := walkBody (scope.within params) seen fresh
    rw [Phrase.WalksPlainly, rule.walkInverse_else, rule.rewriteInverse_else]
    exact ⟨by simp only [same], visits⟩
  | @elseBlock tags chained program params bound continued inverse content others walkProgram
      walkOthers =>
    intro scope seen fresh
    have places : inversePlaces (some
        ⟨[.block chained ⟨program, params, continued⟩ inverse], bound, true⟩) =
        startOf chained.span :: (bodyPlaces program ++ inversePlaces inverse) := by
      rw [inversePlaces, Program.places, bodyPlaces, bodyPlaces, List.append_nil]
      rfl
    rw [Phrase.places, places] at fresh
    have inside := fresh.perm (List.perm_append_singleton _ _)
    obtain ⟨same, visits⟩ := walkProgram (scope.within params) seen inside.left.left
    obtain ⟨sameOthers, visitsOthers⟩ := walkOthers scope _ (inside.left.right visits)
    rw [Phrase.WalksPlainly, rule.walkInverse_chain, rule.rewriteInverse_chain, places]
    exact ⟨by simp only [same, sameOthers], (visits.append visitsOthers).mono fun place member =>
      List.mem_cons_of_mem _ member⟩

end Walk

/-! ### Passes -/

/-- A pass over a template in which no two invocations begin at the same place. -/
theorem Rule.run_eq {rule : Rule} (only : rule.OnInvocations) {template : Template}
    (regular : Regular (.content template.body)) (known : none ∉ bodyPlaces template.body)
    (distinct : (bodyPlaces template.body).Nodup) :
    rule.run template =
      ⟨{ template with body := (rule.rewriteBody .empty template.body).1 },
        (rule.rewriteBody .empty template.body).2⟩ := by
  have fresh : Fresh .empty (bodyPlaces template.body) := ⟨known, distinct, by simp [Seen.empty]⟩
  obtain ⟨same, visits⟩ := regular.walksPlainly only .empty .empty fresh
  have size := visits.size
  rw [show Seen.empty.size = 0 from rfl, Nat.zero_add] at size
  rw [Rule.run]
  simp only [same, size]

theorem Probe.rule_onInvocations (identity : String) : (Probe.rule identity).OnInvocations := by
  intro scope statement noInvocation
  rw [Probe.rule]
  simp only [Probe.ambiguousName?, noInvocation]
  rfl

theorem TagForm.rule_onInvocations (confirmed : List String) :
    (TagForm.rule confirmed).OnInvocations := by
  intro scope statement noInvocation
  rw [TagForm.rule]
  simp only [TagForm.tag?, noInvocation]
  rfl

end TagMigration
