/-
Reading content: text, comments, curly tags and elements, one after the other, until
the input ends or something stands there that only the surrounding block or element
can use. Blocks and elements hold content again. The readers of the two are given
the reader of nested content, and the one recursive reader counts down the characters
that are left: each statement takes at least one, so a count of nought means that
the text has ended.
-/
import TagMigration.Reader.StartTag

namespace TagMigration.Reader

/-! ### Where content stops -/

/-- Why a run of content ended. -/
inductive Stop where
  | endOfInput
  | closingTag
  | elseTag
  | closeTag
deriving DecidableEq, Repr

/-- What follows the two braces of a curly tag, without a `~` marker and blanks. -/
def tagInside (afterBraces : List Char) : List Char :=
  let unmarked := match afterBraces with
    | '~' :: rest => rest
    | _ => afterBraces
  unmarked.dropWhile isBlank

/-- Whether the word `else` stands here and ends here. -/
def isElse : List Char → Bool
  | 'e' :: 'l' :: 's' :: 'e' :: '}' :: '}' :: _ => true
  | 'e' :: 'l' :: 's' :: 'e' :: char :: _ => char == '~' || isBlank char
  | _ => false

/-- The reason to stop content in front of this text, if there is one. -/
def stop? : List Char → Option Stop
  | [] => some .endOfInput
  | '<' :: '/' :: _ => some .closingTag
  | '{' :: '{' :: rest =>
    let inside := tagInside rest
    if isElse inside then some .elseTag
    else if ['/'].isPrefixOf inside then some .closeTag
    else none
  | _ => none

/-- Whether an element begins with this text. -/
def startsElement : List Char → Bool
  | '<' :: char :: _ => isTagStart char
  | _ => false

/-- Whether a run of text ends in front of this text. -/
def endsText (text : List Char) : Bool :=
  ['{', '{'].isPrefixOf text || ['<', '!', '-', '-'].isPrefixOf text ||
    ['<', '/'].isPrefixOf text || startsElement text

/-! ### Text and comments -/

mutual

/-- The run of text at the front. A backslash before two braces makes a curly tag into text. -/
def textRun : List Char → List Char
  | [] => []
  | '\\' :: '{' :: '{' :: rest => '\\' :: '{' :: '{' :: escapedRun rest
  | char :: rest => if endsText (char :: rest) then [] else char :: textRun rest

/-- The rest of a run of text inside an escaped curly tag. -/
def escapedRun : List Char → List Char
  | [] => []
  | '}' :: '}' :: rest => '}' :: '}' :: textRun rest
  | char :: rest => char :: escapedRun rest

end

/-- A run of text. -/
def text (cursor : Cursor) : TextRun × Cursor :=
  let run := textRun cursor.rest
  let after := cursor.skip run.length
  (⟨String.ofList run, some (cursor.spanTo after)⟩, after)

/-- A markup comment. -/
def comment (cursor : Cursor) : Except Fault (Comment × Cursor) :=
  let inside := cursor.skip 4
  match before? ['-', '-', '>'] inside.rest with
  | none => fault cursor.offset .unclosedComment
  | some value =>
    let after := inside.skip (value.length + 3)
    .ok (⟨String.ofList value, some (cursor.spanTo after)⟩, after)

/-! ### Blocks -/

/-- A reader of nested content. -/
abbrev ContentReader := Cursor → Except Fault ((List Statement × Stop) × Cursor)

/-- The opening tag of a block as read: where the block begins, its call and its `~` markers. -/
structure BlockOpening where
  begin : Nat
  name : String
  parts : CallParts
  trimBefore : Bool
  span : Span

/-- The opening tag of a block whose inside begins at `cursor`. A callee that is not a path is
blamed as `unnamed`. -/
def blockOpening (begin : Cursor) (trimBefore : Bool) (unnamed : Cause) (cursor : Cursor) :
    Except Fault (BlockOpening × Cursor) := do
  let (parts, after) ← tagCall .braces begin.offset cursor
  match parts.call.callee.name? with
  | none => fault begin.offset unnamed
  | some name => .ok (⟨begin.offset, name, parts, trimBefore, begin.spanTo after⟩, after)

/-- The tags of a block without its closing tag. -/
def BlockOpening.tags (opening : BlockOpening) (elseTrim : Trim) (elseSpan span : Option Span) :
    BlockTags where
  call := opening.parts.call
  openTrim := ⟨opening.trimBefore, opening.parts.trimAfter⟩
  elseTrim := elseTrim
  closeTrim := .none
  span := span
  openSpan := some opening.span
  elseSpan := elseSpan
  closeSpan := none

/-- The `else` tag that ends a program: the place after its word, and its leading `~` marker. -/
def elseWord (cursor : Cursor) : Bool × Cursor :=
  let (trimBefore, inside) := (cursor.skip 2).eatTilde
  (trimBefore, (inside.skipBlanks.skip 4).skipBlanks)

/-- What a block holds between its opening and its closing tag. -/
structure BlockContent where
  program : Program
  inverse : Option Program
  elseTrim : Trim
  elseSpan : Option Span

/-- The fault of content that stopped before the block `opening` was closed. -/
def unclosed (opening : BlockOpening) (stop : Stop) (cursor : Cursor) : Except Fault Unit :=
  match stop with
  | .closeTag => .ok ()
  | .elseTag => fault cursor.offset (.repeatedElse opening.name)
  | .endOfInput => fault opening.begin (.unclosedBlock opening.name)
  | .closingTag => fault cursor.offset (.closingTagInBlock opening.name)

/-- The content of a block up to its closing tag, which belongs to the first block of a chain.
A chained block has the span from its `else` tag to the place where its content ends. -/
def blockContent (nested : ContentReader) :
    Nat → BlockOpening → Cursor → Except Fault (BlockContent × Cursor)
  | 0, opening, _ => fault opening.begin (.unclosedBlock opening.name)
  | size + 1, opening, cursor => do
    let ((body, stop), cursor) ← nested cursor
    let program : Program := ⟨body, opening.parts.params, false⟩
    if stop ≠ .elseTag then
      unclosed opening stop cursor
      .ok (⟨program, none, .none, none⟩, cursor)
    else
      let (trimBefore, inside) := elseWord cursor
      match closer? .braces inside with
      | some (trimAfter, after) =>
        let ((inverse, stop), last) ← nested after
        unclosed opening stop last
        .ok (⟨program, some ⟨inverse, [], false⟩, ⟨trimBefore, trimAfter⟩,
          some (cursor.spanTo after)⟩, last)
      | none =>
        let (chained, after) ← blockOpening cursor trimBefore .unnamedChain inside
        let (content, last) ← blockContent nested size chained after
        let tags := chained.tags content.elseTrim content.elseSpan (some (cursor.spanTo last))
        .ok (⟨program, some ⟨[.block tags content.program content.inverse], [], true⟩, .none,
          none⟩, last)

/-- The closing tag of the block `name`: its `~` markers. -/
def blockClose (name : String) (cursor : Cursor) : Except Fault (Trim × Cursor) :=
  let (trimBefore, inside) := (cursor.skip 2).eatTilde
  let inside := (inside.skipBlanks.skip 1).skipBlanks
  let run := nameRun inside.rest
  if run.isEmpty then fault cursor.offset .unnamedClose
  else
    let close := String.ofList run
    match closer? .braces (inside.skip run.length).skipBlanks with
    | none => fault cursor.offset .unendedClose
    | some (trimAfter, after) =>
      if close = name then .ok (⟨trimBefore, trimAfter⟩, after)
      else fault cursor.offset (.mismatchedClose close name)

/-- A block that begins at `begin`; the cursor is after its hash sign. -/
def block (nested : ContentReader) (begin : Cursor) (trimBefore : Bool) (cursor : Cursor) :
    Except Fault (Statement × Cursor) := do
  let (opening, after) ← blockOpening begin trimBefore .unnamedBlock cursor
  let (content, close) ← blockContent nested after.rest.length opening after
  let (closeTrim, after) ← blockClose opening.name close
  let tags := opening.tags content.elseTrim content.elseSpan (some (begin.spanTo after))
  let tags := { tags with closeTrim := closeTrim, closeSpan := some (close.spanTo after) }
  .ok (.block tags content.program content.inverse, after)

/-- Whatever begins with two braces, except a tag at which content stops. -/
def curly (nested : ContentReader) (cursor : Cursor) : Except Fault (Statement × Cursor) := do
  if cursor.startsWith ['{', '{', '{', '{'] then fault cursor.offset (.unrecognized .rawBlock)
  else if cursor.startsWith ['{', '{', '{'] then
    let (tag, after) ← mustache cursor
    .ok (.mustache tag, after)
  else
    let (trimBefore, inside) := (cursor.skip 2).eatTilde
    match inside.rest with
    | '!' :: _ =>
      let (comment, after) ← curlyComment cursor inside
      .ok (.curlyComment comment, after)
    | '#' :: '>' :: _ => fault cursor.offset (.unrecognized .partialBlock)
    | '#' :: '*' :: _ => fault cursor.offset (.unrecognized .decoratorBlock)
    | '#' :: _ => block nested cursor trimBefore (inside.skip 1)
    | '>' :: _ => fault cursor.offset (.unrecognized .partialTag)
    | '*' :: _ => fault cursor.offset (.unrecognized .decoratorTag)
    | '^' :: _ => fault cursor.offset (.unrecognized .inverseSection)
    | '&' :: _ => fault cursor.offset (.unrecognized .unescapedTag)
    | _ =>
      let (tag, after) ← mustache cursor
      .ok (.mustache tag, after)

/-! ### Elements -/

/-- The end tag of the element `tag`. -/
def endTag (tag : String) (cursor : Cursor) : Except Fault (Unit × Cursor) :=
  let inside := cursor.skip 2
  match tagName? inside.rest with
  | none => fault cursor.offset .missingEndTagName
  | some run =>
    let close := String.ofList run
    match (inside.skip run.length).skipBlanks.eat? ['>'] with
    | none => fault cursor.offset (.unendedEndTag close)
    | some after =>
      if close = tag then .ok ((), after)
      else fault cursor.offset (.mismatchedEndTag close tag)

/-- An element; the cursor is on its opening angle bracket. -/
def element (nested : ContentReader) (cursor : Cursor) : Except Fault (Statement × Cursor) := do
  let inside := cursor.skip 1
  match tagName? inside.rest with
  | none => fault cursor.offset .missingTagName
  | some run =>
    let tag := String.ofList run
    let afterName := inside.skip run.length
    let (start, after) ← startTag tag cursor.offset afterName.rest.length afterName
    let startSpan := cursor.spanTo after
    let tags (endSpan : Option Span) (last : Cursor) : ElementTags :=
      ⟨tag, start.attributes, start.modifiers, start.params, start.selfClosing,
        some (cursor.spanTo last), some startSpan, endSpan⟩
    if start.selfClosing || isVoidTag tag then .ok (.element (tags none after) [], after)
    else
      let ((children, stop), close) ← nested after
      if stop ≠ .closingTag then fault cursor.offset (.unclosedElement tag)
      else
        let (_, last) ← endTag tag close
        .ok (.element (tags (some (close.spanTo last)) last) children, last)

/-! ### Content -/

/-- One statement at a place where content does not stop. -/
def statement (nested : ContentReader) (cursor : Cursor) : Except Fault (Statement × Cursor) :=
  if cursor.startsWith ['{', '{'] then curly nested cursor
  else if cursor.startsWith ['<', '!', '-', '-'] then do
    let (comment, after) ← comment cursor
    .ok (.comment comment, after)
  else if startsElement cursor.rest then element nested cursor
  else
    let (run, after) := text cursor
    .ok (.text run, after)

/-- The content of a text of at most `size` characters. -/
def contentWithin : Nat → ContentReader
  | 0, cursor => .ok (([], .endOfInput), cursor)
  | size + 1, cursor =>
    match stop? cursor.rest with
    | some stop => .ok (([], stop), cursor)
    | none => do
      let (first, after) ← statement (contentWithin size) cursor
      let ((body, stop), last) ← contentWithin size after
      .ok ((first :: body, stop), last)

/-- Content up to the place where it stops. -/
def content : ContentReader := fun cursor =>
  contentWithin cursor.rest.length cursor

end TagMigration.Reader

namespace TagMigration

/-- A template read from its source. Content that does not stop at the end of the input is
blamed on the tag it stopped at. -/
def Template.read (source identity : String) : Except Fault Template := do
  let ((body, stop), cursor) ← Reader.content (.ofText source.toList)
  match stop with
  | .endOfInput => .ok ⟨identity, source, body⟩
  | .closingTag => fault cursor.offset .strayClosingTag
  | .elseTag => fault cursor.offset .strayElse
  | .closeTag => fault cursor.offset .strayClose

end TagMigration
