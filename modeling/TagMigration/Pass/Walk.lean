/-
One walk for the passes that replace invocations. It goes through a template in
document order and bottom up: what a statement holds is walked first, then the statement
itself may be replaced. A statement is replaced only if it was read from the source,
and only once for each place it was read from, so that copies of one statement are not
replaced twice. Attribute values and modifiers are no statements; the block of a chained
`else` continues a block and is never replaced, though its content is walked.
-/
import TagMigration.Invocation.Basic

namespace TagMigration

/-! ### Places already replaced -/

/-- The places at which a pass has replaced a statement. -/
structure Seen where
  ids : List Nat
deriving DecidableEq, Repr

namespace Seen

/-- Nothing replaced yet. -/
def empty : Seen := ⟨[]⟩

/-- Whether a place is among them. -/
def contains (seen : Seen) (id : Nat) : Bool :=
  seen.ids.contains id

/-- The places with one more. -/
def insert (seen : Seen) (id : Nat) : Seen :=
  if seen.contains id then seen else ⟨id :: seen.ids⟩

/-- The number of places. -/
def size (seen : Seen) : Nat :=
  seen.ids.length

end Seen

/-! ### The walk -/

/-- What a pass does: the statements it leaves alone with all they hold, and what it puts in place
of a statement whose content has been walked. -/
structure Rule where
  leaves : Statement → Bool
  replace? : Scope → Statement → Option Statement

namespace Rule

/-- The statement or its replacement. -/
def settle (rule : Rule) (scope : Scope) (seen : Seen) (statement : Statement) :
    Statement × Seen :=
  match rule.replace? scope statement, statement.span with
  | some replacement, some span =>
    if seen.contains span.start then (statement, seen) else (replacement, seen.insert span.start)
  | _, _ => (statement, seen)

mutual

/-- Walks a statement. -/
def walk (rule : Rule) (scope : Scope) (seen : Seen) : Statement → Statement × Seen
  | .block tags program inverse =>
    if rule.leaves (.block tags program inverse) then (.block tags program inverse, seen)
    else
      let (program, seen) := rule.walkProgram scope seen program
      let (inverse, seen) := rule.walkInverse scope seen inverse
      rule.settle scope seen (.block tags program inverse)
  | .element tags children =>
    let (children, seen) := rule.walkBody (scope.within tags.params) seen children
    rule.settle scope seen (.element tags children)
  | .text run => rule.settle scope seen (.text run)
  | .mustache tag => rule.settle scope seen (.mustache tag)
  | .comment remark => rule.settle scope seen (.comment remark)
  | .curlyComment remark => rule.settle scope seen (.curlyComment remark)

/-- Walks a body. -/
def walkBody (rule : Rule) (scope : Scope) (seen : Seen) :
    List Statement → List Statement × Seen
  | [] => ([], seen)
  | statement :: rest =>
    let (statement, seen) := rule.walk scope seen statement
    let (rest, seen) := rule.walkBody scope seen rest
    (statement :: rest, seen)

/-- Walks a program, inside the names that it binds. -/
def walkProgram (rule : Rule) (scope : Scope) (seen : Seen) : Program → Program × Seen
  | ⟨body, params, chained⟩ =>
    let (body, seen) := rule.walkBody (scope.within params) seen body
    (⟨body, params, chained⟩, seen)

/-- Walks the inverse of a block. -/
def walkInverse (rule : Rule) (scope : Scope) (seen : Seen) :
    Option Program → Option Program × Seen
  | none => (none, seen)
  | some ⟨body, params, true⟩ =>
    let (body, seen) := rule.walkChain scope seen body
    (some ⟨body, params, true⟩, seen)
  | some ⟨body, params, false⟩ =>
    let (body, seen) := rule.walkBody (scope.within params) seen body
    (some ⟨body, params, false⟩, seen)

/-- Walks the body of a chained inverse: a block in it is walked but neither left alone nor
replaced. -/
def walkChain (rule : Rule) (scope : Scope) (seen : Seen) :
    List Statement → List Statement × Seen
  | [] => ([], seen)
  | .block tags program inverse :: rest =>
    let (program, seen) := rule.walkProgram scope seen program
    let (inverse, seen) := rule.walkInverse scope seen inverse
    let (rest, seen) := rule.walkChain scope seen rest
    (.block tags program inverse :: rest, seen)
  | statement :: rest =>
    let (statement, seen) := rule.walk scope seen statement
    let (rest, seen) := rule.walkChain scope seen rest
    (statement :: rest, seen)

end

end Rule

/-! ### Passes -/

/-- What a pass yields: the template, and how many invocations it changed. -/
structure PassResult where
  template : Template
  changes : Nat

/-- The pass of a rule. Every replacement is at a place of its own, so the places count them. -/
def Rule.run (rule : Rule) (template : Template) : PassResult :=
  let (body, seen) := rule.walkBody .empty .empty template.body
  ⟨{ template with body := body }, seen.size⟩

end TagMigration
