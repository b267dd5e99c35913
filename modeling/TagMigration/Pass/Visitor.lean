/-
A pass as a visitor. The walk carries the scope of a place down the tree. A visitor does not: it is
told where a binder is entered and where it is left, and what it has been told before a place is all
that it knows of the names bound there. In that scope it replaces what its rule replaces.
-/
import TagMigration.Pass.Walk

namespace TagMigration

/-- What a visitor keeps: the events that it has been told, and the places that it has replaced. -/
structure Visitor where
  told : List ScopeEvent
  seen : Seen
deriving DecidableEq, Repr

namespace Visitor

/-- Nothing told and nothing replaced yet. -/
def start : Visitor := ⟨[], .empty⟩

/-- The names bound around the place that the visitor has come to. -/
def scope (visitor : Visitor) : Scope :=
  Scope.empty.afterAll visitor.told

/-- The visitor after one more event. -/
def tell (visitor : Visitor) (event : ScopeEvent) : Visitor :=
  { visitor with told := visitor.told ++ [event] }

/-- A visit to a body that binds `params`. -/
def within {α : Type} (visitor : Visitor) (params : List String)
    (visit : Visitor → α × Visitor) : α × Visitor :=
  if params.isEmpty then visit visitor
  else
    let (body, visitor) := visit (visitor.tell (.enter params))
    (body, visitor.tell .leave)

end Visitor

namespace Rule

/-- The statement or its replacement, in the scope that the visitor knows of. -/
def answer (rule : Rule) (visitor : Visitor) (statement : Statement) : Statement × Visitor :=
  let (statement, seen) := rule.settle visitor.scope visitor.seen statement
  (statement, { visitor with seen := seen })

mutual

/-- Visits a statement. -/
def visit (rule : Rule) (visitor : Visitor) : Statement → Statement × Visitor
  | .block tags program inverse =>
    if rule.leaves (.block tags program inverse) then (.block tags program inverse, visitor)
    else
      let (program, visitor) := rule.visitProgram visitor program
      let (inverse, visitor) := rule.visitInverse visitor inverse
      rule.answer visitor (.block tags program inverse)
  | .element tags children =>
    let (children, visitor) :=
      visitor.within tags.params fun visitor => rule.visitBody visitor children
    rule.answer visitor (.element tags children)
  | .text run => rule.answer visitor (.text run)
  | .mustache tag => rule.answer visitor (.mustache tag)
  | .comment remark => rule.answer visitor (.comment remark)
  | .curlyComment remark => rule.answer visitor (.curlyComment remark)

/-- Visits a body. -/
def visitBody (rule : Rule) (visitor : Visitor) : List Statement → List Statement × Visitor
  | [] => ([], visitor)
  | statement :: rest =>
    let (statement, visitor) := rule.visit visitor statement
    let (rest, visitor) := rule.visitBody visitor rest
    (statement :: rest, visitor)

/-- Visits a program. -/
def visitProgram (rule : Rule) (visitor : Visitor) : Program → Program × Visitor
  | ⟨body, params, chained⟩ =>
    let (body, visitor) := visitor.within params fun visitor => rule.visitBody visitor body
    (⟨body, params, chained⟩, visitor)

/-- Visits the inverse of a block. -/
def visitInverse (rule : Rule) (visitor : Visitor) :
    Option Program → Option Program × Visitor
  | none => (none, visitor)
  | some ⟨body, params, true⟩ =>
    let (body, visitor) := rule.visitChain visitor body
    (some ⟨body, params, true⟩, visitor)
  | some ⟨body, params, false⟩ =>
    let (body, visitor) := visitor.within params fun visitor => rule.visitBody visitor body
    (some ⟨body, params, false⟩, visitor)

/-- Visits the body of a chained inverse: a block in it is visited but neither left alone nor
replaced. -/
def visitChain (rule : Rule) (visitor : Visitor) :
    List Statement → List Statement × Visitor
  | [] => ([], visitor)
  | .block tags program inverse :: rest =>
    let (program, visitor) := rule.visitProgram visitor program
    let (inverse, visitor) := rule.visitInverse visitor inverse
    let (rest, visitor) := rule.visitChain visitor rest
    (.block tags program inverse :: rest, visitor)
  | statement :: rest =>
    let (statement, visitor) := rule.visit visitor statement
    let (rest, visitor) := rule.visitChain visitor rest
    (statement :: rest, visitor)

end

/-- The pass of a rule by a visitor, and all that the visitor has been told. -/
def runVisitor (rule : Rule) (template : Template) : PassResult × List ScopeEvent :=
  let (body, visitor) := rule.visitBody .start template.body
  (⟨{ template with body := body }, visitor.seen.size⟩, visitor.told)

end Rule

end TagMigration
