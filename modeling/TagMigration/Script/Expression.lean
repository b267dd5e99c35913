/-
Expressions of a script: literals, functions, classes, calls, operators and assignments.

No tree is built, but two questions need to know what was just read. Only names and members,
and array and object literals that hold nothing else, may be assigned to; and a value with a
sign before it is no base of a power. So reading an expression answers its `Shape`.

Expressions, patterns and statements contain each other. Each recogniser therefore takes the
recognisers for what is nested one level down as an argument, an `Inner`, and only
`TagMigration.Script.Statement` closes the circle.
-/
import TagMigration.Script.Recogniser

namespace TagMigration.Script

/-! ### What surrounds and what is found -/

/-- What surrounds an expression or a statement. -/
structure Context where
  inFunction : Bool
  yields : Bool
  awaits : Bool
  admitsIn : Bool

/-- Inside the body of a function. -/
def Context.ofFunction (isAsync isGenerator : Bool) : Context :=
  ⟨true, isGenerator, isAsync, true⟩

/-- What kind of expression was read. An object literal with a default in it is a pattern
only. -/
inductive Shape where
  | target
  | literal (isPattern isValue : Bool)
  | assignment
  | signed
  | other
deriving DecidableEq

/-- Whether the expression has a value. -/
def Shape.isValue : Shape → Bool
  | .literal _ isValue => isValue
  | _ => true

/-- Whether the expression may stand to the left of an equals sign. -/
def Shape.isAssignable : Shape → Bool
  | .target => true
  | .literal isPattern _ => isPattern
  | _ => false

/-- Whether the expression may stand inside a literal that is assigned to. -/
def Shape.isPatternElement (shape : Shape) : Bool :=
  shape.isAssignable || shape == .assignment

/-- The shape of a literal, given the shapes of what it holds. -/
def Shape.ofElements (elements : List Shape) : Shape :=
  .literal (elements.all Shape.isPatternElement) (elements.all Shape.isValue)

/-- The recognisers for what is nested one level down. -/
structure Inner where
  assignment : Context → Recogniser Shape
  primary : Context → Recogniser Shape
  binding : Context → Recogniser (List String)
  statement : Context → Recogniser Unit

/-- An expression without commas that has a value. -/
def value (inner : Inner) (context : Context) : Recogniser Unit := do
  guard (← inner.assignment context).isValue

/-- An expression, with or without commas. -/
def expression (inner : Inner) (context : Context) : Recogniser Shape := do
  let shape ← inner.assignment context
  unless ← atSign "," do return shape
  guard shape.isValue
  let step := do
    let comma ← passSign ","
    if comma then value inner context
    return comma
  repeatStep step (← wordsLeft)
  return .other

/-- An expression that has a value and after which no `in` can follow by mistake. -/
def wholeExpression (inner : Inner) (context : Context) : Recogniser Unit := do
  guard (← expression inner { context with admitsIn := true }).isValue

/-! ### Names and keys -/

/-- The names that cannot be bound. -/
def reservedNames : List String :=
  ["await", "break", "case", "catch", "class", "const", "continue", "debugger", "default",
    "delete", "do", "else", "enum", "export", "extends", "false", "finally", "for", "function",
    "if", "import", "in", "instanceof", "new", "null", "return", "super", "switch", "this",
    "throw", "true", "try", "typeof", "var", "void", "while", "with", "yield"]

/-- A name that can be bound. -/
def identifier : Recogniser String := do
  match (← get).token with
  | .name text =>
    guard (!reservedNames.contains text)
    advance
    return text
  | _ => failure

/-- The name of a member. -/
def memberName : Recogniser Unit := do
  match (← get).token with
  | .name _ => advance
  | .privateName => advance
  | _ => failure

/-- Whether a key of an object or a class can start here. -/
def atKey : Recogniser Bool := do
  match (← get).token with
  | .name _ => return true
  | .privateName => return true
  | .number => return true
  | .quoted _ => return true
  | .sign text => return text == "["
  | .finish => return false

/-- A key of an object or a class, with its text if it is a name. -/
def key (inner : Inner) (context : Context) : Recogniser (Option String) := do
  match (← get).token with
  | .name text =>
    advance
    return some text
  | .sign "[" =>
    advance
    value inner { context with admitsIn := true }
    sign "]"
    return none
  | _ =>
    guard (← atKey)
    advance
    return none

/-! ### Patterns that bind -/

/-- A pattern with or without a default. -/
def bindingElement (inner : Inner) (context : Context) : Recogniser (List String) := do
  let names ← inner.binding context
  if ← passSign "=" then value inner { context with admitsIn := true }
  return names

/-- An element of an array pattern. What takes the rest is the last. -/
def arrayBindingElement (inner : Inner) (context : Context) : Recogniser (List String) := do
  if ← passSign "..." then
    let names ← inner.binding context
    guard (← atSign "]")
    return names
  else if (← atSign ",") || (← atSign "]") then return []
  else bindingElement inner context

/-- A property of an object pattern. What takes the rest is the last. -/
def objectBindingProperty (inner : Inner) (context : Context) : Recogniser (List String) := do
  if ← passSign "..." then
    let name ← identifier
    guard (← atSign "\x7d")
    return [name]
  else
    match ← key inner context with
    | some name =>
      if ← passSign ":" then bindingElement inner context
      else
        guard (!reservedNames.contains name)
        if ← passSign "=" then value inner { context with admitsIn := true }
        return [name]
    | none =>
      sign ":"
      bindingElement inner context

/-- A pattern that binds names, and the names. -/
def binding (inner : Inner) (context : Context) : Recogniser (List String) := do
  match (← get).token with
  | .sign "[" => return (← listBetween "[" "]" (arrayBindingElement inner context)).flatten
  | .sign "\x7b" =>
    return (← listBetween "\x7b" "\x7d" (objectBindingProperty inner context)).flatten
  | _ => return [← identifier]

/-! ### Functions -/

/-- A parameter of a function. What takes the rest is the last. -/
def parameter (inner : Inner) (context : Context) : Recogniser Unit := do
  if ← passSign "..." then
    let _ ← inner.binding context
    guard (← atSign ")")
  else
    let _ ← bindingElement inner context

/-- The parameters of a function. -/
def parameters (inner : Inner) (context : Context) : Recogniser Unit := do
  let _ ← listBetween "(" ")" (parameter inner context)

/-- Statements in braces. -/
def block (inner : Inner) (context : Context) : Recogniser Unit := do
  sign "\x7b"
  sequenceUpTo "\x7d" (inner.statement context) (← wordsLeft)

/-- The parameters and the body of a function. -/
def functionRest (inner : Inner) (isAsync isGenerator : Bool) : Recogniser Unit := do
  let context := Context.ofFunction isAsync isGenerator
  parameters inner context
  block inner context

/-- A function, from the keyword on, with its name if it has one. -/
def function (inner : Inner) (isAsync : Bool) : Recogniser (Option String) := do
  keyword "function"
  let isGenerator ← passSign "*"
  let name ← if ← atSign "(" then pure none else some <$> identifier
  functionRest inner isAsync isGenerator
  return name

/-- Whether an asynchronous function starts here. -/
def atAsyncFunction : Recogniser Bool := do
  if ← atName "async" then afterNext do return (← atName "function") && !(← atNewLine)
  else return false

/-! ### Methods -/

/-- What the words before a key make of it. -/
inductive Flavour where
  | plain
  | getter
  | setter
  | method (isAsync isGenerator : Bool)
deriving DecidableEq

/-- The words before a key. -/
def flavour : Recogniser Flavour := do
  if ← passSign "*" then return .method false true
  let leadsAsync ← afterNext do return ((← atKey) || (← atSign "*")) && !(← atNewLine)
  let leadsKey ← afterNext atKey
  if (← atName "async") && leadsAsync then
    advance
    return .method true (← passSign "*")
  if (← atName "get") && leadsKey then
    advance
    return .getter
  if (← atName "set") && leadsKey then
    advance
    return .setter
  return .plain

/-- A method, after its key. A getter takes nothing and a setter one value. -/
def methodRest (inner : Inner) (kind : Flavour) : Recogniser Unit := do
  match kind with
  | .plain => functionRest inner false false
  | .method isAsync isGenerator => functionRest inner isAsync isGenerator
  | .getter =>
    sign "("
    sign ")"
    block inner (.ofFunction false false)
  | .setter =>
    sign "("
    let _ ← bindingElement inner (.ofFunction false false)
    let _ ← passSign ","
    sign ")"
    block inner (.ofFunction false false)

/-! ### Literals -/

/-- An element of an array literal, or a hole. -/
def arrayElement (inner : Inner) (context : Context) : Recogniser Shape := do
  if (← atSign ",") || (← atSign "]") then return .target
  let _ ← passSign "..."
  inner.assignment context

/-- A property of an object literal. -/
def property (inner : Inner) (context : Context) : Recogniser Shape := do
  if ← passSign "..." then return ← inner.assignment context
  let kind ← flavour
  let name ← key inner context
  if kind != .plain || (← atSign "(") then
    methodRest inner kind
    return .other
  if ← passSign ":" then return ← inner.assignment context
  guard (name.any fun name => !reservedNames.contains name)
  if ← passSign "=" then
    value inner context
    return .literal true false
  return .target

/-- The stretches and substitutions of a template literal. -/
def templateRest (inner : Inner) (context : Context) (tagged : Bool) :
    Nat → List Char → Recogniser Unit
  | 0, _ => failure
  | fuel + 1, text => do
    let (closed, rest) ← (templateText? tagged text : Option (Bool × List Char))
    resume rest
    unless closed do
      wholeExpression inner context
      guard (← atSign "\x7d")
      templateRest inner context tagged fuel (← get).rest

/-- A template literal, from its opening quote on. -/
def templateLiteral (inner : Inner) (context : Context) (tagged : Bool) : Recogniser Unit := do
  templateRest inner context tagged (← wordsLeft) (← get).rest

/-! ### Members and calls -/

/-- An argument of a call. -/
def argument (inner : Inner) (context : Context) : Recogniser Unit := do
  let _ ← passSign "..."
  value inner { context with admitsIn := true }

/-- The arguments of a call. -/
def arguments (inner : Inner) (context : Context) : Recogniser Unit := do
  let _ ← listBetween "(" ")" (argument inner context)

/-- An expression in square brackets. -/
def subscript (inner : Inner) (context : Context) : Recogniser Unit := do
  sign "["
  wholeExpression inner context
  sign "]"

/-- What follows an optional dot. -/
def optionalMember (inner : Inner) (context : Context) : Recogniser Unit := do
  if ← atSign "[" then subscript inner context
  else if ← atSign "(" then arguments inner context
  else memberName

/-- Members and calls after an expression. After `new` calls do not belong to it, and nothing
in an optional chain is assigned to. -/
def suffixes (inner : Inner) (context : Context) (admitsCalls : Bool) :
    Nat → Bool → Shape → Recogniser Shape
  | 0, _, _ => failure
  | fuel + 1, isOptional, shape => do
    match (← get).token with
    | .sign "." =>
      advance
      memberName
      suffixes inner context admitsCalls fuel isOptional .target
    | .sign "[" =>
      subscript inner context
      suffixes inner context admitsCalls fuel isOptional .target
    | .sign "?." =>
      guard admitsCalls
      advance
      optionalMember inner context
      suffixes inner context admitsCalls fuel true .other
    | .sign "\x60" =>
      guard (!isOptional)
      templateLiteral inner context true
      suffixes inner context admitsCalls fuel isOptional .other
    | .sign "(" =>
      if admitsCalls then
        arguments inner context
        suffixes inner context admitsCalls fuel isOptional .other
      else return shape
    | _ => return if isOptional then .other else shape

/-- What follows `new`. -/
def construction (inner : Inner) (context : Context) : Recogniser Unit := do
  if ← passSign "." then keyword "target"
  else
    let shape ← inner.primary context
    let _ ← suffixes inner context false (← wordsLeft) false shape
    if ← atSign "(" then arguments inner context

/-- What follows `import` in an expression. -/
def importedValue (inner : Inner) (context : Context) : Recogniser Unit := do
  if ← passSign "." then keyword "meta"
  else
    let given ← listBetween "(" ")" (value inner { context with admitsIn := true })
    guard (given.length == 1 || given.length == 2)

/-- The heritage of a class. -/
def heritage (inner : Inner) (context : Context) : Recogniser Unit := do
  let shape ← inner.primary context
  let _ ← suffixes inner context true (← wordsLeft) false shape

/-- A member of a class. -/
def classMember (inner : Inner) (context : Context) : Recogniser Unit := do
  if ← passSign ";" then return
  let marksStatic ← afterNext do return (← atKey) || (← atSign "*") || (← atSign "\x7b")
  if (← atName "static") && marksStatic then
    advance
    if ← atSign "\x7b" then return ← block inner ⟨false, false, false, true⟩
  let kind ← flavour
  let _ ← key inner context
  if kind != .plain || (← atSign "(") then methodRest inner kind
  else
    if ← passSign "=" then value inner (.ofFunction false false)
    statementEnd

/-- A class, from the keyword on, with its name if it has one. -/
def classRest (inner : Inner) (context : Context) : Recogniser (Option String) := do
  keyword "class"
  let name ←
    if (← atSign "\x7b") || (← atName "extends") then pure none else some <$> identifier
  if ← passName "extends" then heritage inner context
  sign "\x7b"
  sequenceUpTo "\x7d" (classMember inner context) (← wordsLeft)
  return name

/-! ### Operands -/

/-- An expression in parentheses. A name or a member stays one, a literal is no pattern any
more. -/
def parenthesised (inner : Inner) (context : Context) : Recogniser Shape := do
  sign "("
  let shape ← expression inner { context with admitsIn := true }
  guard shape.isValue
  sign ")"
  return if shape == .target then .target else .other

/-- A name, a literal, a function, a class, or an expression in parentheses. -/
def primary (inner : Inner) (context : Context) : Recogniser Shape := do
  if ← atAsyncFunction then
    advance
    let _ ← function inner true
    return .other
  match (← get).token with
  | .finish => failure
  | .number =>
    advance
    return .other
  | .quoted _ =>
    advance
    return .other
  | .privateName =>
    advance
    guard (← atName "in")
    return .other
  | .sign "(" => parenthesised inner context
  | .sign "[" =>
    let elements ← listBetween "[" "]" (arrayElement inner { context with admitsIn := true })
    return .ofElements elements
  | .sign "\x7b" =>
    let elements ← listBetween "\x7b" "\x7d" (property inner { context with admitsIn := true })
    return .ofElements elements
  | .sign "\x60" =>
    templateLiteral inner context false
    return .other
  | .sign text =>
    guard (text == "/" || text == "/=")
    resume (← (regularExpression? ((← get).start.drop 1) : Option (List Char)))
    return .other
  | .name "function" =>
    let _ ← function inner false
    return .other
  | .name "class" =>
    let _ ← classRest inner context
    return .other
  | .name "new" =>
    advance
    construction inner context
    return .other
  | .name "import" =>
    advance
    importedValue inner context
    return .other
  | .name "super" =>
    advance
    guard ((← atSign ".") || (← atSign "[") || (← atSign "("))
    return .other
  | .name text =>
    if ["this", "null", "true", "false"].contains text then
      advance
      return .other
    else
      let _ ← identifier
      return .target

/-- Whether the next word is a sign of a value. -/
def atValueSign (context : Context) : Recogniser Bool := do
  match (← get).token with
  | .sign text => return ["+", "-", "~", "!"].contains text
  | .name text =>
    return ["delete", "void", "typeof"].contains text || (text == "await" && context.awaits)
  | _ => return false

/-- Whether the next word counts up or down. -/
def atStep : Recogniser Bool :=
  return (← atSign "++") || (← atSign "--")

/-- An operand: signs, then an expression that may be counted up or down. -/
def operand (inner : Inner) (context : Context) : Recogniser Shape := do
  let isSigned ← atValueSign context
  let step := do
    let isSign ← atValueSign context
    if isSign then advance
    return isSign
  repeatStep step (← wordsLeft)
  let stepsBefore ← atStep
  if stepsBefore then advance
  let first ← primary inner context
  let shape ← suffixes inner context true (← wordsLeft) false first
  let stepsAfter := (← atStep) && !(← atNewLine)
  if stepsAfter then advance
  if stepsBefore || stepsAfter then guard (shape == .target && stepsBefore != stepsAfter)
  return if isSigned then .signed else if stepsBefore || stepsAfter then .other else shape

/-! ### Operators -/

/-- The operators between two operands. -/
def operators : List String :=
  ["*", "/", "%", "+", "-", "<<", ">>", ">>>", "<", ">", "<=", ">=", "==", "!=", "===", "!==",
    "&", "^", "|", "&&", "||", "??", "**"]

/-- The operator that comes next. -/
def operator? (context : Context) : Recogniser (Option String) := do
  match (← get).token with
  | .sign text => return if operators.contains text then some text else none
  | .name "instanceof" => return some "instanceof"
  | .name "in" => return if context.admitsIn then some "in" else none
  | _ => return none

/-- Operators and operands after an operand. Fallbacks and connectives do not mix without
parentheses, and a signed value has no power. -/
def operations (inner : Inner) (context : Context) :
    Nat → Shape → Bool → Bool → Recogniser Shape
  | 0, _, _, _ => failure
  | fuel + 1, left, falls, connects => do
    match ← operator? context with
    | none => return left
    | some operator =>
      guard (left.isValue && !(operator == "**" && left == .signed))
      advance
      let right ← operand inner context
      guard right.isValue
      let falls := falls || operator == "??"
      let connects := connects || operator == "&&" || operator == "||"
      guard (!(falls && connects))
      let _ ← operations inner context fuel right falls connects
      return .other

/-- A value that hangs on a condition, or what would be the condition. -/
def conditional (inner : Inner) (context : Context) : Recogniser Shape := do
  let first ← operand inner context
  let shape ← operations inner context (← wordsLeft) first false false
  unless ← passSign "?" do return shape
  guard shape.isValue
  value inner { context with admitsIn := true }
  sign ":"
  value inner context
  return .other

/-! ### Assignments -/

/-- What stands before the body of an arrow function, and whether it is asynchronous. -/
def arrowHead (inner : Inner) (context : Context) : Recogniser Bool := do
  let leadsAsync ← afterNext do
    match (← get).token with
    | .name _ => return !(← atNewLine)
    | .sign text => return text == "(" && !(← atNewLine)
    | _ => return false
  let isAsync := (← atName "async") && leadsAsync
  if isAsync then advance
  if ← atSign "(" then parameters inner context
  else
    let _ ← identifier
  guard (!(← atNewLine))
  sign "=>"
  return isAsync

/-- The body of an arrow function. -/
def arrowBody (inner : Inner) (context : Context) (isAsync : Bool) : Recogniser Unit := do
  if ← atSign "\x7b" then block inner (.ofFunction isAsync false)
  else value inner ⟨true, false, isAsync, context.admitsIn⟩

/-- The operators that change what stands to their left. -/
def updates : List String :=
  ["+=", "-=", "*=", "/=", "%=", "**=", "<<=", ">>=", ">>>=", "&=", "^=", "|=", "&&=", "||=",
    "??="]

/-- An assignment, or what would be assigned to. -/
def assignmentRest (inner : Inner) (context : Context) : Recogniser Shape := do
  let shape ← conditional inner context
  match (← get).token with
  | .sign "=" =>
    guard shape.isAssignable
    advance
    value inner context
    return .assignment
  | .sign text =>
    if updates.contains text then
      guard (shape == .target)
      advance
      value inner context
      return .other
    else return shape
  | _ => return shape

/-- What follows `yield`. -/
def yieldRest (inner : Inner) (context : Context) : Recogniser Unit := do
  unless ← atNewLine do
    if ← passSign "*" then value inner context
    else
      match (← get).token with
      | .finish => return
      | .sign text =>
        unless [")", "]", "\x7d", ",", ";", ":"].contains text do value inner context
      | .name "in" => return
      | .name "of" => return
      | _ => value inner context

/-- An expression without commas. -/
def assignment (inner : Inner) (context : Context) : Recogniser Shape := fun feed =>
  match arrowHead inner context feed with
  | some (isAsync, feed) =>
    (arrowBody inner context isAsync feed).map fun (_, feed) => (.other, feed)
  | none =>
    if context.yields && feed.token == .name "yield" then
      (do advance; yieldRest inner context : Recogniser Unit) feed
        |>.map fun (_, feed) => (.other, feed)
    else assignmentRest inner context feed

end TagMigration.Script
