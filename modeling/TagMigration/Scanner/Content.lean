/-
Scanning content: text, comments, blocks and elements, one statement after the other, and the
template that they make up. Each loop is given the number of its rounds; nested content is scanned
with one round less than the content around it.
-/
import TagMigration.Reader.Content
import TagMigration.Scanner.StartTag

namespace TagMigration.Scan

/-- A scanner of nested content. -/
abbrev ContentScanner := Nat → Except Halt ((List Statement × Reader.Stop) × Nat)

section Scanners

variable (source : List Char)

/-- The offset behind an escaped curly tag, from its backslash on. -/
def escapeEnd (place : Nat) : Except Halt Nat := do
  let text ← rest source (place + 3)
  .ok <|
    match find ['}', '}'] text with
    | some stop => place + 3 + stop + 2
    | none => byteSize source

/-- The end of a run of text that begins at `start`. -/
def textEnd (start : Nat) : Nat → Nat → Except Halt Nat
  | 0, _ => .error .exhausted
  | left + 1, place => do
    if place < byteSize source then
      let text ← rest source place
      if ['\\', '{', '{'].isPrefixOf text then
        let after ← escapeEnd source place
        goOn place after
        textEnd start left after
      else if start < place ∧ Reader.endsText text then .ok place
      else
        let after := place + (text.head?.map Char.utf8Size).getD 1
        goOn place after
        textEnd start left after
    else .ok place

/-- A comment, from its opening angle bracket on. -/
def comment (place : Nat) : Except Halt (Comment × Nat) := do
  let text ← rest source (place + 4)
  match find ['-', '-', '>'] text with
  | none => blame place .unclosedComment
  | some stop =>
    let value ← slice source (place + 4) (place + 4 + stop)
    let after := place + 4 + stop + 3
    .ok (⟨String.ofList value, some ⟨place, after⟩⟩, after)

/-- The offset behind a word of `size` bytes in a curly tag and the blanks around it, and whether a
`~` marker came before it. -/
def tagWord (size place : Nat) : Except Halt (Bool × Nat) := do
  let (trimBefore, inside) ← eat source ['~'] (place + 2)
  let word ← skipBlanks source inside
  let after ← skipBlanks source (word + size)
  .ok (trimBefore, after)

/-- The fault of content that stopped before the block `opening` was closed. -/
def unclosed (opening : Reader.BlockOpening) (stop : Reader.Stop) (place : Nat) :
    Except Halt Unit :=
  match stop with
  | .closeTag => .ok ()
  | .elseTag => blame place (.repeatedElse opening.name)
  | .endOfInput => blame opening.begin (.unclosedBlock opening.name)
  | .closingTag => blame place (.closingTagInBlock opening.name)

/-- The closing tag of the block `name`. -/
def blockClose (name : String) (place : Nat) : Except Halt (Trim × Nat) := do
  let (trimBefore, inside) ← tagWord source 1 place
  let text ← rest source inside
  let run := Reader.nameRun text
  if run.isEmpty then blame place .unnamedClose
  else
    let close := String.ofList run
    let (trimAfter, ending) ← eat source ['~'] (← skipBlanks source (inside + byteSize run))
    let (closed, after) ← eat source ['}', '}'] ending
    if closed then
      if close = name then .ok (⟨trimBefore, trimAfter⟩, after)
      else blame place (.mismatchedClose close name)
    else blame place .unendedClose

/-- The end tag of the element `tag`. -/
def endTag (tag : String) (place : Nat) : Except Halt (Unit × Nat) := do
  let text ← rest source (place + 2)
  match Reader.tagName? text with
  | none => blame place .missingEndTagName
  | some run =>
    let close := String.ofList run
    let (closed, after) ← eat source ['>'] (← skipBlanks source (place + 2 + byteSize run))
    if closed then
      if close = tag then .ok ((), after) else blame place (.mismatchedEndTag close tag)
    else blame place (.unendedEndTag close)

variable (rounds : Nat)

/-- A run of text. -/
def text (place : Nat) : Except Halt (TextRun × Nat) := do
  let stop ← textEnd source place rounds place
  let chars ← slice source place stop
  .ok (⟨String.ofList chars, some ⟨place, stop⟩⟩, stop)

/-- The opening tag of a block whose inside is at `place`. -/
def blockOpening (begin : Nat) (trimBefore : Bool) (unnamed : Cause) (place : Nat) :
    Except Halt (Reader.BlockOpening × Nat) := do
  let (parts, after) ← tagCall source rounds .braces begin place
  match parts.call.callee.name? with
  | none => blame begin unnamed
  | some name => .ok (⟨begin, name, parts, trimBefore, ⟨begin, after⟩⟩, after)

/-- The offset behind the braces that end an `else` tag without a chained block, and whether a `~`
marker came before them. -/
def elseEnd (place : Nat) : Except Halt (Option (Bool × Nat)) := do
  let text ← rest source place
  .ok <|
    if ['~', '}', '}'].isPrefixOf text then some (true, place + 3)
    else if ['}', '}'].isPrefixOf text then some (false, place + 2)
    else none

/-- The content of a block up to its closing tag. -/
def blockContent (nested : ContentScanner) :
    Nat → Reader.BlockOpening → Nat → Except Halt (Reader.BlockContent × Nat)
  | 0, _, _ => .error .exhausted
  | left + 1, opening, begin => do
    let ((body, stop), place) ← nested begin
    let program : Program := ⟨body, opening.parts.params, false⟩
    if stop ≠ .elseTag then
      unclosed opening stop place
      .ok (⟨program, none, .none, none⟩, place)
    else
      let (trimBefore, inside) ← tagWord source 4 place
      match ← elseEnd source inside with
      | some (trimAfter, after) =>
        let ((inverse, stop), last) ← nested after
        unclosed opening stop last
        .ok (⟨program, some ⟨inverse, [], false⟩, ⟨trimBefore, trimAfter⟩, some ⟨place, after⟩⟩,
          last)
      | none =>
        let (chained, after) ← blockOpening source rounds place trimBefore .unnamedChain inside
        let (content, last) ← blockContent nested left chained after
        let tags := chained.tags content.elseTrim content.elseSpan (some ⟨place, last⟩)
        .ok (⟨program, some ⟨[.block tags content.program content.inverse], [], true⟩, .none, none⟩,
          last)

/-- A block that begins at `begin`; its hash sign is behind. -/
def block (nested : ContentScanner) (begin : Nat) (trimBefore : Bool) (place : Nat) :
    Except Halt (Statement × Nat) := do
  let (opening, after) ← blockOpening source rounds begin trimBefore .unnamedBlock place
  let (content, close) ← blockContent source rounds nested rounds opening after
  let (closeTrim, after) ← blockClose source opening.name close
  let tags := opening.tags content.elseTrim content.elseSpan (some ⟨begin, after⟩)
  let tags := { tags with closeTrim := closeTrim, closeSpan := some ⟨close, after⟩ }
  .ok (.block tags content.program content.inverse, after)

/-- Whatever begins with two braces, except a tag at which content stops. -/
def curly (nested : ContentScanner) (place : Nat) : Except Halt (Statement × Nat) := do
  let text ← rest source place
  if ['{', '{', '{', '{'].isPrefixOf text then blame place (.unrecognized .rawBlock)
  else if ['{', '{', '{'].isPrefixOf text then
    let (tag, after) ← mustache source rounds place
    .ok (.mustache tag, after)
  else
    let (trimBefore, inside) ← eat source ['~'] (place + 2)
    let text ← rest source inside
    match text with
    | '!' :: _ =>
      let (comment, after) ← curlyComment source place inside
      .ok (.curlyComment comment, after)
    | '#' :: _ =>
      let text ← rest source (inside + 1)
      match text with
      | '>' :: _ => blame place (.unrecognized .partialBlock)
      | '*' :: _ => blame place (.unrecognized .decoratorBlock)
      | _ => block source rounds nested place trimBefore (inside + 1)
    | '>' :: _ => blame place (.unrecognized .partialTag)
    | '*' :: _ => blame place (.unrecognized .decoratorTag)
    | '^' :: _ => blame place (.unrecognized .inverseSection)
    | '&' :: _ => blame place (.unrecognized .unescapedTag)
    | _ =>
      let (tag, after) ← mustache source rounds place
      .ok (.mustache tag, after)

/-- An element, from its opening angle bracket on. -/
def element (nested : ContentScanner) (place : Nat) : Except Halt (Statement × Nat) := do
  let text ← rest source (place + 1)
  match Reader.tagName? text with
  | none => blame place .missingTagName
  | some run =>
    let tag := String.ofList run
    let (start, after) ← startTag source rounds tag place rounds (place + 1 + byteSize run)
    let tags (endSpan : Option Span) (last : Nat) : ElementTags :=
      ⟨tag, start.attributes, start.modifiers, start.params, start.selfClosing,
        some ⟨place, last⟩, some ⟨place, after⟩, endSpan⟩
    if start.selfClosing || isVoidTag tag then .ok (.element (tags none after) [], after)
    else
      let ((children, stop), close) ← nested after
      if stop ≠ .closingTag then blame place (.unclosedElement tag)
      else
        let (_, last) ← endTag source tag close
        .ok (.element (tags (some ⟨close, last⟩) last) children, last)

/-- One statement at a place where content does not stop. -/
def statement (nested : ContentScanner) (place : Nat) : Except Halt (Statement × Nat) := do
  let chars ← rest source place
  if ['{', '{'].isPrefixOf chars then curly source rounds nested place
  else if ['<', '!', '-', '-'].isPrefixOf chars then
    let (remark, after) ← comment source place
    .ok (.comment remark, after)
  else if Reader.startsElement chars then element source rounds nested place
  else
    let (run, after) ← text source rounds place
    .ok (.text run, after)

/-- Content up to the place where it stops. -/
def content : Nat → ContentScanner
  | 0, _ => .error .exhausted
  | left + 1, round => do
    let chars ← rest source round
    match Reader.stop? chars with
    | some stop => .ok (([], stop), round)
    | none =>
      let (first, after) ← statement source rounds (content left) round
      goOn round after
      let ((body, stop), last) ← content left after
      .ok ((first :: body, stop), last)

end Scanners

/-- A template scanned in at most `rounds` rounds of each of its loops. -/
def template (rounds : Nat) (source identity : String) : Except Halt Template := do
  let ((body, stop), place) ← content source.toList rounds rounds 0
  match stop with
  | .endOfInput => .ok ⟨identity, source, body⟩
  | .closingTag => blame place .strayClosingTag
  | .elseTag => blame place .strayElse
  | .closeTag => blame place .strayClose

end TagMigration.Scan
