/-
Names bound by block params. A block or an element may bind names for its body; inside
it, such a name is local. The scope at a place is the stack of binders around it. The
order in which binders are entered and left is written down once, as the events of a
template, so that a scope is what the events before a place leave behind.
-/
import TagMigration.Template.Basic

namespace TagMigration

/-! ### Scopes -/

/-- The names bound around a place, one frame a binder, the innermost first. -/
structure Scope where
  frames : List (List String)
deriving DecidableEq, Repr

namespace Scope

/-- No binder around. -/
def empty : Scope := ⟨[]⟩

/-- The scope inside a binder of the given names. -/
def push (scope : Scope) (params : List String) : Scope :=
  ⟨params :: scope.frames⟩

/-- The scope outside the innermost binder. Outside of all binders it stays empty. -/
def pop (scope : Scope) : Scope :=
  ⟨scope.frames.drop 1⟩

/-- Whether some binder binds the name. -/
def isLocal (scope : Scope) (name : String) : Bool :=
  scope.frames.any fun frame => frame.contains name

/-- The scope of a body that binds `params`. A body that binds nothing is no binder. -/
def within (scope : Scope) (params : List String) : Scope :=
  if params.isEmpty then scope else scope.push params

@[simp]
theorem pop_push (scope : Scope) (params : List String) : (scope.push params).pop = scope := rfl

end Scope

/-! ### Events -/

/-- Entering a binder of names, or leaving the binder that was entered last. -/
inductive ScopeEvent where
  | enter (params : List String)
  | leave
deriving DecidableEq, Repr

/-- The scope after an event. -/
def Scope.after (scope : Scope) : ScopeEvent → Scope
  | .enter params => scope.push params
  | .leave => scope.pop

/-- The scope after events. -/
def Scope.afterAll (scope : Scope) (events : List ScopeEvent) : Scope :=
  events.foldl Scope.after scope

/-- The events of a body that binds `params`. -/
def ScopeEvent.around (params : List String) (inside : List ScopeEvent) : List ScopeEvent :=
  if params.isEmpty then inside else .enter params :: inside ++ [.leave]

mutual

/-- The binders of a statement in document order. -/
def Statement.scopeEvents : Statement → List ScopeEvent
  | .block _ program none => program.scopeEvents
  | .block _ program (some ⟨body, _, true⟩) => program.scopeEvents ++ bodyEvents body
  | .block _ program (some ⟨body, params, false⟩) =>
    program.scopeEvents ++ ScopeEvent.around params (bodyEvents body)
  | .element tags children => ScopeEvent.around tags.params (bodyEvents children)
  | .text _ => []
  | .mustache _ => []
  | .comment _ => []
  | .curlyComment _ => []

/-- The binders of a program: its own, around those of its body. -/
def Program.scopeEvents : Program → List ScopeEvent
  | ⟨body, params, _⟩ => ScopeEvent.around params (bodyEvents body)

/-- The binders of a body in document order. -/
def bodyEvents : List Statement → List ScopeEvent
  | [] => []
  | statement :: rest => statement.scopeEvents ++ bodyEvents rest

end

/-- The binders of a template in document order. -/
def Template.scopeEvents (template : Template) : List ScopeEvent :=
  bodyEvents template.body

end TagMigration
