/-
Probes. An ambiguous invocation is wrapped in a conditional that asks the running
application whether the name is a component, and holds the invocation in both of its
branches:

  {{#if (-probe-is-component "name" "identity")}}X{{else}}X{{/if}}

Whatever the answer, the same content is shown; the answer is recorded on the way. A
conditional of that form that stands in the source is left alone with all it holds, so
that a template is not probed twice.
-/
import TagMigration.Pass.Walk

namespace TagMigration

namespace Probe

/-- The name of the helper that the conditional calls. -/
def helperName : String := "-probe-is-component"

/-! ### The conditional -/

/-- The outer `~` markers of an invocation, which its conditional repeats. -/
def outerTrim : Statement → Trim
  | .mustache tag => tag.trim
  | .block tags _ _ => ⟨tags.openTrim.before, tags.closeTrim.after⟩
  | .text _ => .none
  | .element .. => .none
  | .comment _ => .none
  | .curlyComment _ => .none

/-- The question whether `name`, as used in the template `identity`, is a component. -/
def question (name identity : String) : Expression :=
  .call ⟨Build.path helperName, [Build.string name, Build.string identity], []⟩ none

/-- The tags of a conditional around an invocation with the given outer `~` markers. -/
def conditionalTags (name identity : String) (trim : Trim) : BlockTags where
  call := ⟨Build.path "if", [question name identity], []⟩
  openTrim := ⟨trim.before, false⟩
  elseTrim := .none
  closeTrim := ⟨false, trim.after⟩
  span := none
  openSpan := none
  elseSpan := none
  closeSpan := none

/-- The conditional that holds an invocation in both branches. -/
def conditional (name identity : String) (invocation : Statement) : Statement :=
  .block (conditionalTags name identity (outerTrim invocation))
    (Build.program [invocation] []) (some (Build.program [invocation] []))

/-! ### Recognising it -/

/-- Whether an expression calls the probe helper. -/
def isQuestion : Expression → Bool
  | .call call _ => call.callee.name? == some helperName
  | .path .. => false
  | .literal .. => false

/-- Whether a call is that of a conditional on a probe. -/
def asks (call : Call) : Bool :=
  match call.positional with
  | [condition] =>
    call.callee.name? == some "if" && call.named.isEmpty && isQuestion condition
  | _ => false

/-- Whether a block has the form of a conditional, with one statement in each branch. -/
def isWrapper (tags : BlockTags) (program : Program) (inverse : Option Program) : Bool :=
  match inverse with
  | none => false
  | some inverse =>
    asks tags.call && !inverse.chained && program.params.isEmpty &&
      program.body.length == 1 && inverse.body.length == 1

/-- Whether a statement is a conditional that stands in the source. -/
def isReadWrapper : Statement → Bool
  | .block tags program inverse => tags.span.isSome && isWrapper tags program inverse
  | .text _ => false
  | .mustache _ => false
  | .element .. => false
  | .comment _ => false
  | .curlyComment _ => false

/-! ### The pass -/

/-- The name of an ambiguous invocation. -/
def ambiguousName? (scope : Scope) (statement : Statement) : Option String :=
  statement.invocation?.bind fun invocation =>
    match invocation.classify scope with
    | .ambiguous name => some name
    | .reserved => none
    | .unambiguous => none

/-- Puts a conditional in place of every ambiguous invocation. -/
def rule (identity : String) : Rule where
  leaves := isReadWrapper
  replace? scope statement :=
    (ambiguousName? scope statement).map fun name => conditional name identity statement

end Probe

/-- Wraps every ambiguous invocation of a template in a probe. -/
def Template.instrument (template : Template) : PassResult :=
  (Probe.rule template.identity).run template

end TagMigration
