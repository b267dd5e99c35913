/-
The migration itself: an invocation of a name that is confirmed to be a component
becomes a tag.

  {{user-card title=t}}                      <UserCard @title={{t}} />
  {{#panel-box as |p|}}body{{/panel-box}}    <PanelBox as |p|>
                                             body</PanelBox>

A tag has no positional arguments, no `~` markers and no inverse, so an invocation that
has any of them stays as it is. Probes are taken out first, so that a template comes out
the same whether it was instrumented or not.
-/
import TagMigration.Invocation.TagName
import TagMigration.Pass.Strip

namespace TagMigration

namespace TagForm

/-- The tag that an invocation of a confirmed name becomes. -/
def tag? (confirmed : List String) (scope : Scope) (statement : Statement) : Option String := do
  let invocation ← statement.invocation?
  if !invocation.call.positional.isEmpty || invocation.isTrimmed then none
  else
    let name ← Probe.ambiguousName? scope statement
    if confirmed.contains name then TagName.ofName? name else none

/-- The element that an invocation becomes. An inline tag becomes an empty element; a block without
an inverse becomes an element whose body begins on a new line. -/
def element? (tag : String) : Statement → Option Statement
  | .mustache invocation =>
    some (Build.element tag invocation.call.toAttributes [] true [])
  | .block tags program none =>
    some (Build.element tag tags.call.toAttributes program.params false
      (Build.text "\n" :: program.body))
  | .block _ _ (some _) => none
  | .text _ => none
  | .element .. => none
  | .comment _ => none
  | .curlyComment _ => none

/-- Puts a tag in place of every invocation of a confirmed name that has a tag form. -/
def rule (confirmed : List String) : Rule where
  leaves _ := false
  replace? scope statement := do element? (← tag? confirmed scope statement) statement

end TagForm

/-- Turns the invocations of confirmed names into tags. -/
def Template.migrate (template : Template) (confirmed : List String) : PassResult :=
  (TagForm.rule confirmed).run template.strip.template

end TagMigration
