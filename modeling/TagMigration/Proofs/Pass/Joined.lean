/-
Tags that begin with joined text. The rule puts a new line in front of what a block holds, and if
that begins with text there are two texts where the reader finds one. The joining rule
puts the same tags in place of the same invocations and makes the two texts one at once. It keeps
all that the rule keeps.
-/
import TagMigration.Proofs.Pass.Twins
import TagMigration.Proofs.Pass.Walked
import TagMigration.Proofs.Tree.Merging

namespace TagMigration

/-- An element whose first child is joined to the others. -/
def Statement.joinFirst : Statement → Statement
  | .element tags (first :: rest) => .element tags (joinText first rest)
  | statement => statement

/-- Text in front of regular content. -/
theorem Regular.joinText {body : List Statement} (regular : Regular (.content body)) {run : TextRun} :
    Regular (.content (TagMigration.joinText (.text run) body)) := by
  rcases joinText_cases (.text run) body with same | ⟨first, second, others, -, rfl, same⟩
  · rw [same]
    exact .leaf rfl regular
  · rw [same]
    cases regular with
    | leaf isLeaf more => exact .leaf rfl more

/-- Text in front of content without conditionals. -/
theorem unprobed_joinText {body : List Statement} (run : TextRun)
    (unprobed : ∀ other ∈ bodyStatements body, Probe.isConditional other = false) :
    ∀ other ∈ bodyStatements (joinText (.text run) body), Probe.isConditional other = false := by
  rcases joinText_cases (.text run) body with same | ⟨first, second, others, -, rfl, same⟩
  · rw [same]
    exact List.forall_mem_cons.mpr ⟨rfl, unprobed⟩
  · rw [same]
    exact List.forall_mem_cons.mpr ⟨rfl, (forall_bodyStatements_cons.mp unprobed).2⟩

namespace TagForm

variable {confirmed : List String} {scope : Scope} {statement replacement : Statement}

/-- Puts the same tags in place of the same invocations, each with its new line joined to the text
that follows it. -/
def joined (confirmed : List String) : Rule where
  leaves _ := false
  replace? scope statement := ((rule confirmed).replace? scope statement).map Statement.joinFirst

/-- What the joining rule puts in place of an invocation. -/
theorem joined_cases (replaces : (joined confirmed).replace? scope statement = some replacement) :
    ∃ tag, tag? confirmed scope statement = some tag ∧
      ((∃ invocation, statement = .mustache invocation ∧
        replacement = Build.element tag invocation.call.toAttributes [] true []) ∨
      ∃ tags body params chained, statement = .block tags ⟨body, params, chained⟩ none ∧
        replacement = Build.element tag tags.call.toAttributes params false
          (joinText (Build.text "\n") body)) := by
  obtain ⟨element, found, rfl⟩ := Option.map_eq_some_iff.mp replaces
  obtain ⟨tag, isTag, becomes⟩ := replace?_eq_some.mp found
  refine ⟨tag, isTag, ?_⟩
  rcases element?_cases becomes with ⟨invocation, rfl, rfl⟩ | ⟨tags, body, params, chained, rfl, rfl⟩
  · exact .inl ⟨invocation, rfl, rfl⟩
  · exact .inr ⟨tags, body, params, chained, rfl, rfl⟩

theorem joined_onInvocations (confirmed : List String) : (joined confirmed).OnInvocations := by
  intro scope statement noInvocation
  simp only [joined, rule_onInvocations confirmed scope statement noInvocation, Option.map_none]

theorem joined_keepsRegular (confirmed : List String) : (joined confirmed).KeepsRegular := by
  intro scope statement replacement replaces regular
  obtain ⟨tag, -, ⟨_, rfl, rfl⟩ | ⟨tags, body, params, chained, rfl, rfl⟩⟩ := joined_cases replaces
  · exact .element .nil .nil
  · cases regular with
    | leaf isLeaf => cases isLeaf
    | block content others more => exact .element content.joinText .nil

theorem joined_keepsUnprobed (confirmed : List String) : (joined confirmed).KeepsUnprobed := by
  intro scope statement replacement replaces unprobed
  obtain ⟨tag, -, ⟨_, rfl, rfl⟩ | ⟨tags, body, params, chained, rfl, rfl⟩⟩ := joined_cases replaces
  · exact List.forall_mem_cons.mpr ⟨rfl, fun _ member => nomatch member⟩
  · have inside : ∀ other ∈ bodyStatements body, Probe.isConditional other = false :=
      fun other member => unprobed other (mem_statements_inside (List.mem_append_left _ member))
    refine List.forall_mem_cons.mpr ⟨rfl, List.forall_mem_append.mpr ⟨?_, fun _ member =>
      nomatch member⟩⟩
    exact unprobed_joinText _ inside

/-- Whether a statement becomes a tag does not depend on spans. -/
theorem isNone_replace?_mapSpans (confirmed : List String) (scope : Scope)
    (change : Option Span → Option Span) (statement : Statement) :
    ((rule confirmed).replace? scope (statement.mapSpans change)).isNone =
      ((rule confirmed).replace? scope statement).isNone := by
  simp only [rule, tag?_mapSpans]
  cases tag? confirmed scope statement with
  | none => rfl
  | some tag =>
    cases statement with
    | block tags program inverse => cases inverse <;> rfl
    | _ => rfl

/-- Whether a block becomes a tag does not depend on what it holds. -/
theorem isSome_replace?_block (confirmed : List String) (scope : Scope) (tags : BlockTags)
    (program other : Program) {inverse others : Option Program}
    (same : others.isSome = inverse.isSome) :
    ((rule confirmed).replace? scope (.block tags other others)).isSome =
      ((rule confirmed).replace? scope (.block tags program inverse)).isSome := by
  have sameTag : tag? confirmed scope (.block tags other others) =
      tag? confirmed scope (.block tags program inverse) := rfl
  simp only [rule, sameTag]
  cases tag? confirmed scope (.block tags program inverse) with
  | none => rfl
  | some tag => cases inverse <;> cases others <;> first | rfl | cases same

end TagForm

end TagMigration
