/-
Statements of a script, and the recogniser for the whole grammar of statements and
expressions, to any depth of nesting.
-/
import TagMigration.Script.Expression

namespace TagMigration.Script

/-! ### Declarations -/

/-- The three ways to declare variables. -/
def declarationWords : List String :=
  ["var", "let", "const"]

/-- Whether a pattern of its own starts here. -/
def atPattern : Recogniser Bool :=
  return (← atSign "[") || (← atSign "\x7b")

/-- Whether a declaration of variables starts here. The word `let` may also be a name. -/
def atDeclaration : Recogniser Bool := do
  if (← atName "var") || (← atName "const") then return true
  if ← atName "let" then
    afterNext do
      match (← get).token with
      | .name text => return !(["in", "of", "instanceof"].contains text)
      | _ => atPattern
  else return false

/-- One declared variable or pattern. A pattern and a constant need a value. -/
def declarator (inner : Inner) (context : Context) (word : String) :
    Recogniser (List String) := do
  let needsValue := word == "const" || (← atPattern)
  let names ← inner.binding context
  if ← passSign "=" then value inner context else guard (!needsValue)
  return names

/-- Variables that are declared together, separated by commas. -/
def declarators (inner : Inner) (context : Context) (word : String) :
    Nat → Recogniser (List String)
  | 0 => failure
  | fuel + 1 => do
    let names ← declarator inner context word
    if ← passSign "," then return names ++ (← declarators inner context word fuel)
    return names

/-- The word that a declaration starts with. -/
def declarationWord : Recogniser String := do
  match (← get).token with
  | .name text =>
    guard (declarationWords.contains text)
    advance
    return text
  | _ => failure

/-- A declaration of variables, and their names. -/
def declaration (inner : Inner) (context : Context) : Recogniser (List String) := do
  let word ← declarationWord
  let names ← declarators inner context word (← wordsLeft)
  statementEnd
  return names

/-! ### Parts of statements -/

/-- An expression in parentheses after a keyword. -/
def condition (inner : Inner) (context : Context) : Recogniser Unit := do
  sign "("
  wholeExpression inner context
  sign ")"

/-- A statement that stands where only one may stand, so it declares nothing. -/
def single (inner : Inner) (context : Context) : Recogniser Unit := do
  let declares := (← atName "const") || (← atName "class") || (← atName "function") ||
    (← atAsyncFunction) || ((← atName "let") && (← atDeclaration))
  guard (!declares)
  inner.statement context

/-- Whether a statement can end before the next word. -/
def atStatementEnd : Recogniser Bool :=
  return (← atNewLine) || (← atSign ";") || (← atSign "\x7d") || (← get).token == .finish

/-- The tests and steps of a counting loop, after its first semicolon. -/
def loopRest (inner : Inner) (context : Context) : Recogniser Unit := do
  unless ← atSign ";" do wholeExpression inner context
  sign ";"
  unless ← atSign ")" do wholeExpression inner context

/-- What a loop goes over, after the variable or the target. Tells whether it goes over
something. -/
def iteration (inner : Inner) (context : Context) : Recogniser Bool := do
  if ← passName "of" then
    value inner context
    return true
  else if ← passName "in" then
    wholeExpression inner context
    return true
  else return false

/-- The head of a loop that declares a variable. -/
def declaringLoop (inner : Inner) (context : Context) : Recogniser Unit := do
  let narrow := { context with admitsIn := false }
  let word ← declarationWord
  let needsValue := word == "const" || (← atPattern)
  let _ ← inner.binding narrow
  unless ← iteration inner context do
    if ← passSign "=" then value inner narrow else guard (!needsValue)
    if ← passSign "," then
      let _ ← declarators inner narrow word (← wordsLeft)
    sign ";"
    loopRest inner context

/-- The head of a loop. -/
def loopHead (inner : Inner) (context : Context) : Recogniser Unit := do
  if ← passSign ";" then loopRest inner context
  else if ← atDeclaration then declaringLoop inner context
  else
    let shape ← expression inner { context with admitsIn := false }
    if ← iteration inner context then guard shape.isAssignable
    else
      guard shape.isValue
      sign ";"
      loopRest inner context

/-- A clause of a choice, up to the next one. -/
def clause (inner : Inner) (context : Context) : Recogniser Unit := do
  if ← passName "case" then wholeExpression inner context else keyword "default"
  sign ":"
  let step := do
    let ends := (← atName "case") || (← atName "default") || (← atSign "\x7d")
    unless ends do inner.statement context
    return !ends
  repeatStep step (← wordsLeft)

/-- What follows a guarded block: a handler, a last step, or both. -/
def handlers (inner : Inner) (context : Context) : Recogniser Unit := do
  let catches ← passName "catch"
  if catches then
    if ← passSign "(" then
      let _ ← inner.binding context
      sign ")"
    block inner context
  let finishes ← passName "finally"
  if finishes then block inner context
  guard (catches || finishes)

/-- An expression that stands for a statement. -/
def expressionStatement (inner : Inner) (context : Context) : Recogniser Unit := do
  wholeExpression inner context
  statementEnd

/-- A statement that jumps, with or without a label. -/
def jump : Recogniser Unit := do
  unless ← atStatementEnd do
    let _ ← identifier
  statementEnd

/-! ### Statements -/

/-- A statement that starts with a name. -/
def namedStatement (inner : Inner) (context : Context) (name : String) : Recogniser Unit := do
  match name with
  | "if" =>
    advance
    condition inner context
    single inner context
    if ← passName "else" then single inner context
  | "while" =>
    advance
    condition inner context
    single inner context
  | "with" =>
    advance
    condition inner context
    single inner context
  | "do" =>
    advance
    single inner context
    keyword "while"
    condition inner context
    let _ ← passSign ";"
  | "for" =>
    advance
    if ← passName "await" then guard context.awaits
    sign "("
    loopHead inner context
    sign ")"
    single inner context
  | "switch" =>
    advance
    condition inner context
    sign "\x7b"
    sequenceUpTo "\x7d" (clause inner context) (← wordsLeft)
  | "try" =>
    advance
    block inner context
    handlers inner context
  | "return" =>
    guard context.inFunction
    advance
    unless ← atStatementEnd do wholeExpression inner context
    statementEnd
  | "throw" =>
    advance
    guard (!(← atNewLine))
    wholeExpression inner context
    statementEnd
  | "break" =>
    advance
    jump
  | "continue" =>
    advance
    jump
  | "debugger" =>
    advance
    statementEnd
  | "function" =>
    let name ← function inner false
    guard name.isSome
  | "class" =>
    let name ← classRest inner context
    guard name.isSome
  | _ =>
    if ← afterNext (atSign ":") then
      let _ ← identifier
      sign ":"
      inner.statement context
    else expressionStatement inner context

/-- A statement. -/
def statement (inner : Inner) (context : Context) : Recogniser Unit := do
  if ← atDeclaration then
    let _ ← declaration inner context
  else if ← atAsyncFunction then
    advance
    let name ← function inner true
    guard name.isSome
  else
    match (← get).token with
    | .sign "\x7b" => block inner context
    | .sign ";" => advance
    | .name text => namedStatement inner context text
    | _ => expressionStatement inner context

/-! ### To any depth -/

/-- The recognisers for what is nested at most so deep. -/
def nestedTo : Nat → Inner
  | 0 => ⟨fun _ => failure, fun _ => failure, fun _ => failure, fun _ => failure⟩
  | depth + 1 =>
    let inner := nestedTo depth
    ⟨assignment inner, primary inner, binding inner, statement inner⟩

end TagMigration.Script
