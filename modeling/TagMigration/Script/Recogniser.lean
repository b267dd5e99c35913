/-
Recognising the grammar of a script. A recogniser looks at the next word and at what follows
it, and either fails or moves on. It builds no tree: whether a module is well formed, and which
names it exports, is all that is asked of it.
-/
import TagMigration.Script.Token

namespace TagMigration.Script

/-! ### Position -/

/-- A place in a script: the next word, whether a line broke before it, and the text from the
word on and after it. -/
structure Feed where
  broke : Bool
  token : Token
  start : List Char
  rest : List Char

/-- The place at the front of a text. -/
def Feed.ofText? (text : List Char) : Option Feed := do
  let (broke, start) ← skipGap .between false text
  let (token, rest) ← Token.scan? start
  some ⟨broke, token, start, rest⟩

/-- A step over some words. -/
abbrev Recogniser := StateT Feed Option

/-! ### Single words -/

/-- Goes on with the given text. -/
def resume (text : List Char) : Recogniser Unit :=
  fun _ => (Feed.ofText? text).map ((), ·)

/-- Goes past the next word. -/
def advance : Recogniser Unit := do
  resume (← get).rest

/-- Whether the next word is the given sign. -/
def atSign (text : String) : Recogniser Bool :=
  return (← get).token == .sign text

/-- Whether the next word is the given name. -/
def atName (text : String) : Recogniser Bool :=
  return (← get).token == .name text

/-- Whether a line broke before the next word. -/
def atNewLine : Recogniser Bool :=
  return (← get).broke

/-- Goes past a sign if it is there, and tells whether it was. -/
def passSign (text : String) : Recogniser Bool := do
  if ← atSign text then
    advance
    return true
  else return false

/-- Goes past a name if it is there, and tells whether it was. -/
def passName (text : String) : Recogniser Bool := do
  if ← atName text then
    advance
    return true
  else return false

/-- Goes past a sign that has to be there. -/
def sign (text : String) : Recogniser Unit := do
  guard (← passSign text)

/-- Goes past a name that has to be there. -/
def keyword (text : String) : Recogniser Unit := do
  guard (← passName text)

/-- Goes past a quoted text. -/
def quotedText : Recogniser String := do
  match (← get).token with
  | .quoted text =>
    advance
    return text
  | _ => failure

/-- What would be seen after the next word. -/
def afterNext (look : Recogniser Bool) : Recogniser Bool := fun feed =>
  match (do advance; look : Recogniser Bool) feed with
  | some (answer, _) => some (answer, feed)
  | none => some (false, feed)

/-- The end of a statement: a semicolon, or a place where one may be left out. -/
def statementEnd : Recogniser Unit := do
  unless ← passSign ";" do
    guard ((← atNewLine) || (← atSign "\x7d") || (← get).token == .finish)

/-! ### Lists -/

/-- The number of words that can be left. -/
def wordsLeft : Recogniser Nat :=
  return (← get).start.length + 1

/-- Items up to a closing sign, separated by commas. A comma may stand after the last one. -/
def listUpTo {Item : Type} (close : String) (item : Recogniser Item) :
    Nat → Recogniser (List Item)
  | 0 => failure
  | fuel + 1 => do
    if ← passSign close then return []
    let first ← item
    if ← passSign "," then return first :: (← listUpTo close item fuel)
    sign close
    return [first]

/-- A list in brackets, from the opening sign to the closing one. -/
def listBetween {Item : Type} (start close : String) (item : Recogniser Item) :
    Recogniser (List Item) := do
  sign start
  listUpTo close item (← wordsLeft)

/-- Items up to a closing sign, with nothing between them. -/
def sequenceUpTo (close : String) (item : Recogniser Unit) : Nat → Recogniser Unit
  | 0 => failure
  | fuel + 1 => do
    unless ← passSign close do
      item
      sequenceUpTo close item fuel

/-- A step as often as it says that it moved on. -/
def repeatStep (step : Recogniser Bool) : Nat → Recogniser Unit
  | 0 => failure
  | fuel + 1 => do
    if ← step then repeatStep step fuel

end TagMigration.Script
