/-
Reading expressions and calls. A call is a callee, positional arguments, named
arguments and, where the tag may bind names, block params; it ends at its closer.
An argument may itself be a call in parentheses, so the reader of expressions and
the reader of arguments depend on each other. The dependence is untied by handing
the reader of nested expressions to the reader of arguments; both count down the
characters that are left, so a count of nought means that the text has ended.
-/
import TagMigration.Reader.Cursor
import TagMigration.Template.Basic
import TagMigration.Text.Search

namespace TagMigration.Reader

/-! ### Words of the language -/

/-- A character of a name: not blank and none of the characters that shape a call. -/
def isNameChar (char : Char) : Bool :=
  !isBlank char && !(['=', '~', '}', '(', ')', '{', '|', '\'', '"'].contains char)

/-- The longest run of name characters at the front. -/
def nameRun (text : List Char) : List Char :=
  text.takeWhile isNameChar

/-- The digits at the front, possibly after a sign and possibly with a fraction. -/
def number? (text : List Char) : Option (List Char) :=
  let unsigned := match text with
    | '-' :: rest => rest
    | _ => text
  let sign := match text with
    | '-' :: _ => ['-']
    | _ => []
  let whole := unsigned.takeWhile Char.isDigit
  if whole.isEmpty then none
  else
    match unsigned.dropWhile Char.isDigit with
    | '.' :: rest =>
      let fraction := rest.takeWhile Char.isDigit
      some (sign ++ whole ++ if fraction.isEmpty then [] else '.' :: fraction)
    | _ => some (sign ++ whole)

/-- The key of a named argument that stands at the front, and the number of characters up to and
with its equals sign. -/
def namedKey? (text : List Char) : Option (List Char × Nat) :=
  let key := nameRun text
  let blanks := (text.drop key.length).takeWhile isBlank
  match text.drop (key.length + blanks.length) with
  | '=' :: _ => if key.isEmpty then none else some (key, key.length + blanks.length + 1)
  | _ => none

/-- The number of characters of the words that introduce block params, if they stand at the
front: `as`, blanks and a bar. -/
def paramsIntro? : List Char → Option Nat
  | 'a' :: 's' :: rest =>
    let blanks := rest.takeWhile isBlank
    match rest.drop blanks.length with
    | '|' :: _ => if blanks.isEmpty then none else some (blanks.length + 3)
    | _ => none
  | _ => none

/-- The names of block params, up to and with the closing bar; the opening one is behind. -/
def blockParams (cursor : Cursor) : Except Fault (List String × Cursor) :=
  match before? ['|'] cursor.rest with
  | none => fault cursor.offset .unclosedParams
  | some inside =>
    let names := (words inside).map String.ofList
    if names.isEmpty then fault cursor.offset .emptyParams
    else .ok (names, cursor.skip (inside.length + 1))

/-! ### Literals -/

/-- The value of a string up to its closing quote, with the number of characters that it takes,
the quote included. A backslash before the quote is dropped; before any other character it is
kept. -/
def quotedString? (quote : Char) : List Char → Option (List Char × Nat)
  | [] => none
  | ['\\'] => none
  | '\\' :: escaped :: rest =>
    (quotedString? quote rest).map fun (value, size) =>
      (if escaped = quote then escaped :: value else '\\' :: escaped :: value, size + 2)
  | char :: rest =>
    if char = quote then some ([], 1)
    else (quotedString? quote rest).map fun (value, size) => (char :: value, size + 1)

/-- A word is a literal if it is one of the four literal words, else a path. -/
def wordExpression (name : List Char) (span : Option Span) : Expression :=
  let name := String.ofList name
  if name = "true" then .literal (.boolean true) span
  else if name = "false" then .literal (.boolean false) span
  else if name = "null" then .literal .null span
  else if name = "undefined" then .literal .undefined span
  else .path name span

/-- A number or a word. Digits that run on into name characters are part of a word. -/
def atom (cursor : Cursor) : Except Fault (Expression × Cursor) :=
  let digits := (number? cursor.rest).filter fun digits =>
    (nameRun (cursor.rest.drop digits.length)).isEmpty
  match digits with
  | some digits =>
    let after := cursor.skip digits.length
    .ok (.literal (.number (String.ofList digits)) (some (cursor.spanTo after)), after)
  | none =>
    let name := nameRun cursor.rest
    match cursor.rest, name with
    | char :: _, [] => fault cursor.offset (.unexpectedCharacter char)
    | _, _ =>
      let after := cursor.skip name.length
      .ok (wordExpression name (some (cursor.spanTo after)), after)

/-- A string in the given quotes; the cursor is on the opening one. -/
def stringLiteral (quote : Char) (cursor : Cursor) : Except Fault (Expression × Cursor) :=
  match quotedString? quote (cursor.rest.drop 1) with
  | none => fault cursor.offset .unterminatedString
  | some (value, size) =>
    let after := cursor.skip (size + 1)
    .ok (.literal (.string (String.ofList value)) (some (cursor.spanTo after)), after)

/-! ### Calls -/

/-- What follows the callee in a call. -/
structure Arguments where
  positional : List Expression
  named : List NamedArgument
  params : List String
  trimAfter : Bool

/-- A whole call as read, with the names it binds and the `~` marker before its closer. -/
structure CallParts where
  call : Call
  params : List String
  trimAfter : Bool

/-- The place after the closer, if it stands here, and whether a `~` marker came before it. A
parenthesis takes no marker. -/
def closer? (closer : Closer) (cursor : Cursor) : Option (Bool × Cursor) :=
  if closer ≠ .parenthesis ∧ cursor.startsWith ('~' :: closer.chars) then
    some (true, cursor.skip (closer.chars.length + 1))
  else if cursor.startsWith closer.chars then some (false, cursor.skip closer.chars.length)
  else none

/-- The arguments of a call up to and with its closer. `begin` is the offset that an end of input
is blamed on; `named` tells whether a named argument has been read. If block params stand in a
call twice, the later ones count. -/
def arguments (nested : Cursor → Except Fault (Expression × Cursor)) (closer : Closer)
    (begin : Nat) : Nat → Bool → Cursor → Except Fault (Arguments × Cursor)
  | 0, _, _ => fault begin (.missingCloser closer)
  | size + 1, named, cursor => do
    let cursor := cursor.skipBlanks
    if cursor.rest.isEmpty then fault begin (.missingCloser closer)
    else
      match closer? closer cursor with
      | some (trimAfter, after) => .ok (⟨[], [], [], trimAfter⟩, after)
      | none =>
        match paramsIntro? cursor.rest with
        | some intro =>
          let (params, after) ← blockParams (cursor.skip intro)
          let (more, after) ← arguments nested closer begin size named after
          .ok ({ more with params := if more.params.isEmpty then params else more.params }, after)
        | none =>
          match namedKey? cursor.rest with
          | some (key, width) =>
            let (value, after) ← nested (cursor.skip width).skipBlanks
            let argument := ⟨String.ofList key, value, some (cursor.spanTo after)⟩
            let (more, after) ← arguments nested closer begin size true after
            .ok ({ more with named := argument :: more.named }, after)
          | none =>
            if named then fault cursor.offset .positionalAfterNamed
            else
              let (argument, after) ← nested cursor
              let (more, after) ← arguments nested closer begin size false after
              .ok ({ more with positional := argument :: more.positional }, after)

/-- A callee and its arguments, up to and with the closer. -/
def callParts (nested : Cursor → Except Fault (Expression × Cursor)) (closer : Closer)
    (begin : Nat) (cursor : Cursor) : Except Fault (CallParts × Cursor) := do
  let (callee, after) ← nested cursor.skipBlanks
  let (given, after) ← arguments nested closer begin after.rest.length false after
  .ok (⟨⟨callee, given.positional, given.named⟩, given.params, given.trimAfter⟩, after)

/-- An expression in a text of at most `size` characters. -/
def expressionWithin : Nat → Cursor → Except Fault (Expression × Cursor)
  | 0, cursor => fault cursor.offset .missingExpression
  | size + 1, cursor =>
    match cursor.rest with
    | [] => fault cursor.offset .missingExpression
    | '(' :: _ => do
      let (parts, after) ←
        callParts (expressionWithin size) .parenthesis cursor.offset (cursor.skip 1)
      if parts.params.isEmpty then .ok (.call parts.call (some (cursor.spanTo after)), after)
      else fault cursor.offset .paramsOnCall
    | char :: _ =>
      if char = '"' ∨ char = '\'' then stringLiteral char cursor else atom cursor

/-- An expression. -/
def expression (cursor : Cursor) : Except Fault (Expression × Cursor) :=
  expressionWithin cursor.rest.length cursor

/-- The call of a tag: `begin` is where the tag begins. -/
def tagCall (closer : Closer) (begin : Nat) (cursor : Cursor) :
    Except Fault (CallParts × Cursor) :=
  callParts expression closer begin cursor

end TagMigration.Reader
