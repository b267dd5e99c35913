/-
Modules of the script language. A module is a list of items, each an import, an export or a
statement. Of what an item exports only the names are kept: a module exports no name twice,
and a helper has to have a default export.
-/
import TagMigration.Script.Statement

namespace TagMigration.Script

/-- What one item of a module exports. A default export stands for itself; names exported in a
list do not make one, even if one of them is `default`. -/
inductive Item where
  | exportsDefault
  | exports (names : List String)
deriving DecidableEq, Repr

namespace Item

/-- The names that an item exports. -/
def names : Item → List String
  | .exportsDefault => ["default"]
  | .exports names => names

end Item

/-! ### Clauses -/

/-- Any name, also one that cannot be bound. -/
def anyName : Recogniser String := do
  match (← get).token with
  | .name text =>
    advance
    return text
  | _ => failure

/-- The name of an export, which may be quoted. Tells whether it is a name that can be bound. -/
def exportName : Recogniser (Bool × String) := do
  match (← get).token with
  | .quoted text =>
    advance
    return (false, text)
  | _ =>
    let name ← anyName
    return (!reservedNames.contains name, name)

/-- An entry of an import list. What is not a name that can be bound has to be given one. -/
def importEntry : Recogniser Unit := do
  let (isBindable, _) ← exportName
  if ← passName "as" then
    let _ ← identifier
  else guard isBindable

/-- An entry of an export list: whether what it names can be a variable, and the name under
which it is exported. -/
def exportEntry : Recogniser (Bool × String) := do
  let (isBindable, name) ← exportName
  if ← passName "as" then return (isBindable, (← exportName).2)
  return (isBindable, name)

/-- An attribute of an import. -/
def importAttribute : Recogniser Unit := do
  let _ ← exportName
  sign ":"
  let _ ← quotedText

/-- The module that an item names, and the end of the item. -/
def moduleName : Recogniser Unit := do
  let _ ← quotedText
  if ← passName "with" then
    let _ ← listBetween "\x7b" "\x7d" importAttribute
  statementEnd

/-- All names of a module, under one name. -/
def importNamespace : Recogniser Unit := do
  sign "*"
  keyword "as"
  let _ ← identifier

/-- Names of a module. -/
def importList : Recogniser Unit := do
  let _ ← listBetween "\x7b" "\x7d" importEntry

/-! ### Items -/

/-- An import, after its keyword. -/
def importRest : Recogniser Unit := do
  match (← get).token with
  | .quoted _ => moduleName
  | .sign "*" =>
    importNamespace
    keyword "from"
    moduleName
  | .sign _ =>
    importList
    keyword "from"
    moduleName
  | _ =>
    let _ ← identifier
    if ← passSign "," then
      if ← atSign "*" then importNamespace else importList
    keyword "from"
    moduleName

/-- A default export, after its two keywords. -/
def exportDefaultRest (inner : Inner) (context : Context) : Recogniser Unit := do
  if ← atAsyncFunction then
    advance
    let _ ← function inner true
  else if ← atName "function" then
    let _ ← function inner false
  else if ← atName "class" then
    let _ ← classRest inner context
  else
    value inner context
    statementEnd

/-- An export list, with or without a module that it takes the names from. -/
def exportList : Recogniser (List String) := do
  let entries ← listBetween "\x7b" "\x7d" exportEntry
  if ← passName "from" then moduleName
  else
    guard (entries.all Prod.fst)
    statementEnd
  return entries.map Prod.snd

/-- An export of everything from a module, with the name that stands for it. -/
def exportAll : Recogniser (List String) := do
  sign "*"
  let names ← if ← passName "as" then pure [(← exportName).2] else pure []
  keyword "from"
  moduleName
  return names

/-- An export, after its keyword. -/
def exportRest (inner : Inner) (context : Context) : Recogniser Item := do
  if ← passName "default" then
    exportDefaultRest inner context
    return .exportsDefault
  if ← atSign "*" then return .exports (← exportAll)
  if ← atSign "\x7b" then return .exports (← exportList)
  if ← atDeclaration then return .exports (← declaration inner context)
  let isAsync ← atAsyncFunction
  if isAsync then advance
  let name ← if ← atName "class" then classRest inner context else function inner isAsync
  guard name.isSome
  return .exports name.toList

/-- An item of a module. -/
def item (inner : Inner) (context : Context) : Recogniser Item := do
  let calls ← afterNext do return (← atSign "(") || (← atSign ".")
  if (← atName "import") && !calls then
    advance
    importRest
    return .exports []
  if ← passName "export" then return ← exportRest inner context
  inner.statement context
  return .exports []

/-- Items up to the end. -/
def itemsLeft (inner : Inner) (context : Context) : Nat → Recogniser (List Item)
  | 0 => failure
  | fuel + 1 => do
    if (← get).token == .finish then return []
    let first ← item inner context
    return first :: (← itemsLeft inner context fuel)

/-! ### Modules -/

/-- A module, by what its items export. -/
structure Module where
  items : List Item
deriving DecidableEq, Repr

namespace Module

/-- What surrounds the items of a module. -/
def context : Context :=
  ⟨false, false, true, true⟩

/-- A text without the line that names its interpreter. -/
def withoutInterpreter : List Char → List Char
  | '#' :: '!' :: rest => rest.dropWhile fun char => !isLineBreak char
  | text => text

/-- The names that a module exports. -/
def names (script : Module) : List String :=
  script.items.flatMap Item.names

/-- Whether a module has a default export. -/
def hasDefaultExport (script : Module) : Bool :=
  script.items.contains .exportsDefault

/-- The module that a text is, unless it does not follow the grammar or exports a name twice.
Between two words at most two levels of the grammar open, so the depth suffices. -/
def read? (text : List Char) : Option Module := do
  let text := withoutInterpreter text
  let (found, _) ← itemsLeft (nestedTo (2 * text.length + 4)) context (text.length + 1)
    (← Feed.ofText? text)
  let script : Module := ⟨found⟩
  if script.names.Nodup then some script else none

end Module

end TagMigration.Script
