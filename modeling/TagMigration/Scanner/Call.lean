/-
Scanning expressions and calls. The texts of words, numbers and strings are recognised as a reader
recognises them; the scanner counts the bytes that they take and slices the rest of the source
behind them. A call may hold calls as deep as the rounds that are given.
-/
import TagMigration.Reader.Expression
import TagMigration.Scanner.Basic

namespace TagMigration.Scan

section Scanners

variable (source : List Char)

/-- The names of block params, up to and with the closing bar; the opening one is behind. -/
def blockParams (place : Nat) : Except Halt (List String × Nat) := do
  let text ← rest source place
  match find ['|'] text with
  | none => blame place .unclosedParams
  | some stop =>
    let inside ← slice source place (place + stop)
    let names := (words inside).map String.ofList
    if names.isEmpty then blame place .emptyParams else .ok (names, place + stop + 1)

/-- A string in the given quotes, from the opening one on. -/
def stringLiteral (quote : Char) (place : Nat) : Except Halt (Expression × Nat) := do
  let text ← rest source (place + 1)
  match Reader.quotedString? quote text with
  | none => blame place .unterminatedString
  | some (value, size) =>
    let after := place + 1 + byteSize (text.take size)
    .ok (.literal (.string (String.ofList value)) (some ⟨place, after⟩), after)

/-- A word at the front of a text. -/
def word (text : List Char) (place : Nat) : Except Halt (Expression × Nat) :=
  let name := Reader.nameRun text
  if name.isEmpty then blame place (.unexpectedCharacter (text.headD ' '))
  else
    let after := place + byteSize name
    .ok (Reader.wordExpression name (some ⟨place, after⟩), after)

/-- A number or a word. -/
def atom (place : Nat) : Except Halt (Expression × Nat) := do
  let text ← rest source place
  match Reader.number? text with
  | none => word text place
  | some digits =>
    let after := place + byteSize digits
    let tail ← rest source after
    if (Reader.nameRun tail).isEmpty then
      .ok (.literal (.number (String.ofList digits)) (some ⟨place, after⟩), after)
    else word text place

/-- Whether the closer stands here behind a `~` marker. -/
def marked (closer : Closer) (text : List Char) (place : Nat) : Except Halt Bool :=
  if closer ≠ .parenthesis ∧ ['~'].isPrefixOf text then do
    let inner ← rest source (place + 1)
    .ok (closer.chars.isPrefixOf inner)
  else .ok false

/-- The offset after the closer, if it stands here, and whether a `~` marker came before it. -/
def closer? (closer : Closer) (place : Nat) : Except Halt (Option (Bool × Nat)) := do
  let text ← rest source place
  if ← marked source closer text place then
    .ok (some (true, place + 1 + byteSize closer.chars))
  else if closer.chars.isPrefixOf text then .ok (some (false, place + byteSize closer.chars))
  else .ok none

/-- The arguments of a call up to and with its closer. -/
def arguments (nested : Nat → Except Halt (Expression × Nat)) (closer : Closer) (begin : Nat) :
    Nat → Bool → Nat → Except Halt (Reader.Arguments × Nat)
  | 0, _, _ => .error .exhausted
  | rounds + 1, named, round => do
    let place ← skipBlanks source round
    let text ← rest source place
    if text.isEmpty then blame begin (.missingCloser closer)
    else
      match ← closer? source closer place with
      | some (trimAfter, after) => .ok (⟨[], [], [], trimAfter⟩, after)
      | none =>
        match Reader.paramsIntro? text with
        | some intro =>
          let (params, after) ← blockParams source (place + byteSize (text.take intro))
          goOn round after
          let (more, last) ← arguments nested closer begin rounds named after
          .ok ({ more with params := if more.params.isEmpty then params else more.params }, last)
        | none =>
          match Reader.namedKey? text with
          | some (key, width) =>
            let inside ← skipBlanks source (place + byteSize (text.take width))
            let (value, after) ← nested inside
            goOn round after
            let argument := ⟨String.ofList key, value, some ⟨place, after⟩⟩
            let (more, last) ← arguments nested closer begin rounds true after
            .ok ({ more with named := argument :: more.named }, last)
          | none =>
            if named then blame place .positionalAfterNamed
            else
              let (argument, after) ← nested place
              goOn round after
              let (more, last) ← arguments nested closer begin rounds false after
              .ok ({ more with positional := argument :: more.positional }, last)

variable (rounds : Nat)

/-- A callee and its arguments, up to and with the closer. -/
def callParts (nested : Nat → Except Halt (Expression × Nat)) (closer : Closer)
    (begin place : Nat) : Except Halt (Reader.CallParts × Nat) := do
  let inside ← skipBlanks source place
  let (callee, after) ← nested inside
  let (given, last) ← arguments source nested closer begin rounds false after
  .ok (⟨⟨callee, given.positional, given.named⟩, given.params, given.trimAfter⟩, last)

/-- An expression with calls in it, at most as deep as the first number says. -/
def expressionWithin : Nat → Nat → Except Halt (Expression × Nat)
  | 0, _ => .error .exhausted
  | depth + 1, place => do
    let text ← rest source place
    match text with
    | [] => blame place .missingExpression
    | '(' :: _ =>
      let (parts, after) ←
        callParts source rounds (expressionWithin depth) .parenthesis place (place + 1)
      if parts.params.isEmpty then .ok (.call parts.call (some ⟨place, after⟩), after)
      else blame place .paramsOnCall
    | char :: _ =>
      if char = '"' ∨ char = '\'' then stringLiteral source char place else atom source place

/-- An expression. -/
def expression (place : Nat) : Except Halt (Expression × Nat) :=
  expressionWithin source rounds rounds place

/-- The call of a tag. -/
def tagCall (closer : Closer) (begin place : Nat) : Except Halt (Reader.CallParts × Nat) :=
  callParts source rounds (expression source rounds) closer begin place

end Scanners

end TagMigration.Scan
