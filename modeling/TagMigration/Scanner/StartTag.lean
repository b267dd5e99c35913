/-
Scanning inline tags, comments and start tags. The loop over the pieces of a start tag takes one
comment, modifier, list of block params or attribute in a round; the loop over a quoted value takes
one character or one curly tag.
-/
import TagMigration.Reader.StartTag
import TagMigration.Scanner.Call

namespace TagMigration.Scan

section Scanners

variable (source : List Char) (rounds : Nat)

/-- An inline tag, from its first brace on. -/
def mustache (place : Nat) : Except Halt (Mustache × Nat) := do
  let text ← rest source place
  let trusting := ['{', '{', '{'].isPrefixOf text
  let (trimBefore, inside) ← eat source ['~'] (place + if trusting then 3 else 2)
  let text ← rest source inside
  if ['#'].isPrefixOf text || ['!'].isPrefixOf text || ['/'].isPrefixOf text then
    blame place .notInline
  else
    let closer := if trusting then Closer.tripleBraces else Closer.braces
    let (parts, after) ← tagCall source rounds closer place inside
    if parts.params.isEmpty then
      .ok (⟨parts.call, trusting, ⟨trimBefore, parts.trimAfter⟩, some ⟨place, after⟩⟩, after)
    else blame place .paramsOnMustache

/-- The size of what stands before the ending of a comment, and the size of the ending. -/
def commentEnd (long : Bool) (place : Nat) : Except Halt (Option (Nat × Nat)) := do
  let text ← rest source place
  if long then
    .ok <|
      match find ['-', '-', '}', '}'] text, find ['-', '-', '~', '}', '}'] text with
      | some plain, some marked => some (if plain ≤ marked then (plain, 4) else (marked, 5))
      | some plain, none => some (plain, 4)
      | none, some marked => some (marked, 5)
      | none, none => none
  else
    match find ['}', '}'] text with
    | none => .ok none
    | some stop =>
      let inside ← slice source place (place + stop)
      .ok (some (if 0 < stop ∧ inside.getLast? = some '~' then (stop - 1, 3) else (stop, 2)))

/-- A curly comment that begins at `begin`, from its exclamation mark on. -/
def curlyComment (begin place : Nat) : Except Halt (CurlyComment × Nat) := do
  let (long, inside) ← eat source ['-', '-'] (place + 1)
  match ← commentEnd source long inside with
  | none => blame begin .unclosedCurlyComment
  | some (size, ending) =>
    let value ← slice source inside (inside + size)
    let after := inside + size + ending
    .ok (⟨String.ofList value, long, some ⟨begin, after⟩⟩, after)

/-- The parts of a quoted value, whose opening quote is at `begin`, from `place` on: behind the last
curly tag or the quote, at `start`, a text has begun. -/
def valueParts (quote : Char) (begin : Nat) :
    Nat → Nat → Nat → Except Halt (List ValuePart × Nat)
  | 0, _, _ => .error .exhausted
  | left + 1, start, place => do
    let text ← rest source place
    match text with
    | [] => blame begin .unterminatedValue
    | char :: _ =>
      if char = quote ∨ ['{', '{'].isPrefixOf text then
        let chars ← slice source start place
        let part := Reader.textPart chars ⟨start, place⟩
        if char = quote then .ok (part, place + 1)
        else
          let (tag, after) ← mustache source rounds place
          goOn place after
          let (more, last) ← valueParts quote begin left after after
          .ok (part ++ .mustache tag :: more, last)
      else
        let after := place + char.utf8Size
        goOn place after
        valueParts quote begin left start after

/-- A value in the given quotes, from the opening one on. -/
def quotedValue (quote : Char) (place : Nat) : Except Halt (AttributeValue × Nat) := do
  let (parts, after) ← valueParts source rounds quote place rounds (place + 1) (place + 1)
  let span := some ⟨place, after⟩
  match Reader.plainText? parts with
  | some chars => .ok (.text ⟨chars, span⟩, after)
  | none => .ok (.concat parts span, after)

/-- The size of a value without quotes that is a run of `size` bytes. -/
def bareSize (place size : Nat) : Except Halt Nat := do
  let run ← slice source place (place + size)
  if 1 < size ∧ run.getLast? = some '/' then
    let tail ← rest source (place + size)
    .ok (if ['>'].isPrefixOf tail then size - 1 else size)
  else .ok size

/-- The value of the attribute `name`; the equals sign is behind. -/
def attributeValue (name : String) (place : Nat) : Except Halt (AttributeValue × Nat) := do
  let text ← rest source place
  match text with
  | '"' :: _ => quotedValue source rounds '"' place
  | '\'' :: _ => quotedValue source rounds '\'' place
  | '{' :: '{' :: _ =>
    let (tag, after) ← mustache source rounds place
    .ok (.mustache tag, after)
  | text =>
    let run := text.takeWhile Reader.isBareChar
    if run.isEmpty then blame place (.missingValue name)
    else
      let size ← bareSize source place (byteSize run)
      let chars ← slice source place (place + size)
      .ok (.text ⟨String.ofList chars, some ⟨place, place + size⟩⟩, place + size)

/-- An attribute of the element `tag`. -/
def attr (tag : String) (place : Nat) : Except Halt (Attribute × Nat) := do
  let text ← rest source place
  let run := text.takeWhile Reader.isAttributeChar
  if run.isEmpty then blame place (.invalidAttribute tag)
  else
    let name := String.ofList run
    let afterName := place + byteSize run
    let (equals, afterEquals) ← eat source ['='] (← skipBlanks source afterName)
    if equals then
      let (value, after) ← attributeValue source rounds name (← skipBlanks source afterEquals)
      .ok (⟨name, value, some ⟨place, after⟩⟩, after)
    else .ok (⟨name, .text ⟨"", none⟩, some ⟨place, afterName⟩⟩, afterName)

/-- The pieces of the start tag of `tag`, which begins at `begin`, up to and with its end. -/
def startTag (tag : String) (begin : Nat) : Nat → Nat → Except Halt (Reader.StartTag × Nat)
  | 0, _ => .error .exhausted
  | left + 1, round => do
    let place ← skipBlanks source round
    let text ← rest source place
    if text.isEmpty then blame begin (.unclosedStartTag tag)
    else if ['/', '>'].isPrefixOf text then .ok (⟨[], [], [], true⟩, place + 2)
    else if ['>'].isPrefixOf text then .ok (⟨[], [], [], false⟩, place + 1)
    else if ['{', '{', '!'].isPrefixOf text || ['{', '{', '~', '!'].isPrefixOf text then
      let (_, inside) ← eat source ['~'] (place + 2)
      let (_, after) ← curlyComment source place inside
      goOn round after
      startTag tag begin left after
    else if ['{', '{'].isPrefixOf text then
      let (_, inside) ← eat source ['~'] (place + 2)
      let (parts, after) ← tagCall source rounds .braces place inside
      goOn round after
      let modifier := ⟨parts.call, some ⟨place, after⟩⟩
      let (more, last) ← startTag tag begin left after
      .ok ({ more with modifiers := modifier :: more.modifiers }, last)
    else
      match Reader.paramsIntro? text with
      | some intro =>
        let (params, after) ← blockParams source (place + byteSize (text.take intro))
        goOn round after
        let (more, last) ← startTag tag begin left after
        .ok ({ more with params := if more.params.isEmpty then params else more.params }, last)
      | none =>
        let (first, after) ← attr source rounds tag place
        goOn round after
        let (more, last) ← startTag tag begin left after
        .ok ({ more with attributes := first :: more.attributes }, last)

end Scanners

end TagMigration.Scan
