/-
Reading the start tag of an element: its name, then attributes, modifiers, comments
and block params in any order until the tag ends. A loop over the pieces counts down
the characters that are left; a count of nought means that the text has ended.
-/
import TagMigration.Reader.Curly

namespace TagMigration.Reader

/-! ### Names -/

/-- A character that a tag name can begin with. -/
def isTagStart (char : Char) : Bool :=
  char.isAlpha || char == '@' || char == ':' || char == '_'

/-- The tag name at the front: it runs up to a blank, a slash or a closing angle bracket. -/
def tagName? : List Char → Option (List Char)
  | [] => none
  | char :: rest =>
    if isTagStart char then
      some (char :: rest.takeWhile fun char => !isBlank char && char != '/' && char != '>')
    else none

/-- A character of an attribute name. -/
def isAttributeChar (char : Char) : Bool :=
  !isBlank char && !(['=', '/', '>', '\'', '"', '{'].contains char)

/-- A character of an attribute value without quotes. -/
def isBareChar (char : Char) : Bool :=
  !isBlank char && !(['>', '\'', '"'].contains char)

/-! ### Values -/

/-- The text of a quoted value up to its quote or the next curly tag. -/
def valueText (quote : Char) : List Char → List Char
  | [] => []
  | char :: rest =>
    if char = quote ∨ ['{', '{'].isPrefixOf (char :: rest) then []
    else char :: valueText quote rest

/-- A text as a part of a value, unless it is empty. -/
def textPart (text : List Char) (span : Span) : List ValuePart :=
  if text.isEmpty then [] else [.text ⟨String.ofList text, some span⟩]

/-- The parts of a quoted value up to and with its quote; `begin` is the offset of the opening
quote. -/
def valueParts (quote : Char) (begin : Nat) :
    Nat → Cursor → Except Fault (List ValuePart × Cursor)
  | 0, _ => fault begin .unterminatedValue
  | size + 1, cursor => do
    let text := valueText quote cursor.rest
    let after := cursor.skip text.length
    let part := textPart text (cursor.spanTo after)
    if after.rest.isEmpty then fault begin .unterminatedValue
    else if after.startsWith [quote] then .ok (part, after.skip 1)
    else
      let (tag, after) ← mustache after
      let (more, after) ← valueParts quote begin size after
      .ok (part ++ .mustache tag :: more, after)

/-- The text of a value whose parts are all text, or nothing if one is a curly tag. -/
def plainText? : List ValuePart → Option String
  | [] => some ""
  | .text run :: rest => (plainText? rest).map (run.chars ++ ·)
  | .mustache _ :: _ => none

/-- A value in the given quotes; the cursor is on the opening one. -/
def quotedValue (quote : Char) (cursor : Cursor) : Except Fault (AttributeValue × Cursor) := do
  let inside := cursor.skip 1
  let (parts, after) ← valueParts quote cursor.offset inside.rest.length inside
  let span := some (cursor.spanTo after)
  match plainText? parts with
  | some chars => .ok (.text ⟨chars, span⟩, after)
  | none => .ok (.concat parts span, after)

/-- The text of a value without quotes. A slash right before the end of the tag closes the tag,
unless it is the whole value. -/
def bareText (text : List Char) : List Char :=
  let run := text.takeWhile isBareChar
  match text.drop run.length with
  | '>' :: _ => if 1 < run.length ∧ run.getLast? = some '/' then run.dropLast else run
  | _ => run

/-- The value of the attribute `name`; the equals sign is behind. -/
def attributeValue (name : String) (cursor : Cursor) : Except Fault (AttributeValue × Cursor) :=
  match cursor.rest with
  | '"' :: _ => quotedValue '"' cursor
  | '\'' :: _ => quotedValue '\'' cursor
  | '{' :: '{' :: _ => do
    let (tag, after) ← mustache cursor
    .ok (.mustache tag, after)
  | rest =>
    let text := bareText rest
    if text.isEmpty then fault cursor.offset (.missingValue name)
    else
      let after := cursor.skip text.length
      .ok (.text ⟨String.ofList text, some (cursor.spanTo after)⟩, after)

/-- An attribute of the element `tag`. -/
def attr (tag : String) (cursor : Cursor) : Except Fault (Attribute × Cursor) := do
  let run := cursor.rest.takeWhile isAttributeChar
  if run.isEmpty then fault cursor.offset (.invalidAttribute tag)
  else
    let name := String.ofList run
    let afterName := cursor.skip run.length
    match afterName.skipBlanks.eat? ['='] with
    | none => .ok (⟨name, .text ⟨"", none⟩, some (cursor.spanTo afterName)⟩, afterName)
    | some afterEquals =>
      let (value, after) ← attributeValue name afterEquals.skipBlanks
      .ok (⟨name, value, some (cursor.spanTo after)⟩, after)

/-! ### The whole tag -/

/-- What stands in a start tag after the name. -/
structure StartTag where
  attributes : List Attribute
  modifiers : List Modifier
  params : List String
  selfClosing : Bool

/-- The pieces of the start tag of `tag`, which begins at `begin`, up to and with its end. A
comment among them is dropped. If block params stand in a tag twice, the later ones count. -/
def startTag (tag : String) (begin : Nat) : Nat → Cursor → Except Fault (StartTag × Cursor)
  | 0, _ => fault begin (.unclosedStartTag tag)
  | size + 1, cursor => do
    let cursor := cursor.skipBlanks
    if cursor.rest.isEmpty then fault begin (.unclosedStartTag tag)
    else if cursor.startsWith ['/', '>'] then .ok (⟨[], [], [], true⟩, cursor.skip 2)
    else if cursor.startsWith ['>'] then .ok (⟨[], [], [], false⟩, cursor.skip 1)
    else if cursor.startsWith ['{', '{', '!'] || cursor.startsWith ['{', '{', '~', '!'] then
      let (_, after) ← curlyComment cursor (cursor.skip 2).eatTilde.2
      startTag tag begin size after
    else if cursor.startsWith ['{', '{'] then
      let (parts, after) ← tagCall .braces cursor.offset (cursor.skip 2).eatTilde.2
      let modifier := ⟨parts.call, some (cursor.spanTo after)⟩
      let (more, after) ← startTag tag begin size after
      .ok ({ more with modifiers := modifier :: more.modifiers }, after)
    else
      match paramsIntro? cursor.rest with
      | some intro =>
        let (params, after) ← blockParams (cursor.skip intro)
        let (more, after) ← startTag tag begin size after
        .ok ({ more with params := if more.params.isEmpty then params else more.params }, after)
      | none =>
        let (first, after) ← attr tag cursor
        let (more, after) ← startTag tag begin size after
        .ok ({ more with attributes := first :: more.attributes }, after)

end TagMigration.Reader
