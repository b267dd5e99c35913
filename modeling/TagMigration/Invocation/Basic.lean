/-
Invocations. An inline tag or a block in the content of a template invokes a name.
Some names are constructs of the language; some invocations are settled by their form
or by a binder around them; the others are ambiguous, for only the running application
knows whether such a name is a component.
-/
import TagMigration.Invocation.Scope

namespace TagMigration

/-! ### Names -/

namespace Name

/-- The constructs of the language, which never name a component. -/
def reserved : List String :=
  ["if", "unless", "with", "let", "component", "each", "each-in", "link-to", "textarea", "input",
    "outlet", "yield", "mount", "in-element", "-in-element", "debugger", "log", "has-block",
    "hasBlock", "has-block-params", "partial", "unbound"]

/-- Whether a name is a construct of the language. -/
def isReserved (name : String) : Bool :=
  reserved.contains name

/-- Whether a name is `this` or a property of it. -/
def isThis (name : String) : Bool :=
  name == "this" || "this.".toList.isPrefixOf name.toList

/-- Whether a name is that of an argument, which begins with an at sign. -/
def isArgument (name : String) : Bool :=
  ['@'].isPrefixOf name.toList

/-- Whether a name goes on after a dot. -/
def hasTail (name : String) : Bool :=
  name.toList.contains '.'

/-- The name up to its first dot. -/
def head (name : String) : String :=
  String.ofList (name.toList.takeWhile (· != '.'))

end Name

/-! ### Invocations -/

/-- An invocation: what it calls, whether its output is trusted, the `~` markers of its tags, and
where it stands. -/
structure Invocation where
  call : Call
  trusting : Bool
  trims : List Trim
  span : Option Span

/-- The invocation that a statement is, if it is one. -/
def Statement.invocation? : Statement → Option Invocation
  | .mustache tag => some ⟨tag.call, tag.trusting, [tag.trim], tag.span⟩
  | .block tags _ _ =>
    some ⟨tags.call, false, [tags.openTrim, tags.elseTrim, tags.closeTrim], tags.span⟩
  | .text _ => none
  | .element .. => none
  | .comment _ => none
  | .curlyComment _ => none

/-- What is known of an invocation without running the application. -/
inductive InvocationClass where
  | reserved
  | unambiguous
  | ambiguous (name : String)
deriving DecidableEq, Repr

namespace Invocation

/-- Whether any tag of the invocation carries a `~` marker. -/
def isTrimmed (invocation : Invocation) : Bool :=
  invocation.trims.any Trim.any

/-- The offset at which the invocation was read. It tells the invocations of a template apart; one
that was built has none. -/
def id? (invocation : Invocation) : Option Nat :=
  invocation.span.map Span.start

/-- The class of an invocation in a scope. -/
def classify (invocation : Invocation) (scope : Scope) : InvocationClass :=
  if invocation.trusting then .unambiguous
  else
    match invocation.call.callee.name? with
    | none => .unambiguous
    | some name =>
      if Name.isReserved name then .reserved
      else if Name.isThis name || Name.isArgument name || Name.hasTail name ||
          scope.isLocal (Name.head name) then .unambiguous
      else .ambiguous name

end Invocation

/-! ### Named arguments as attributes -/

/-- A named argument as an attribute of a tag: its key after an at sign, its value in braces. -/
def NamedArgument.toAttribute (argument : NamedArgument) : Attribute :=
  ⟨"@" ++ argument.key, .mustache (Build.mustache argument.value), none⟩

/-- The named arguments of a call as attributes, in order. -/
def Call.toAttributes (call : Call) : List Attribute :=
  call.named.map NamedArgument.toAttribute

end TagMigration
