/-
The tags of a content as readers of their own. Content is text and, between the texts,
pieces that are read without reading content: a statement that holds none, the tags of a
block, the tags of an element. Each piece is given here as a reader of its own, with the
test for where content stops put in front of it, so that what is said of a piece says
also that content does or does not stop there. The readers of blocks and elements
are these pieces with content in between.
-/
import TagMigration.Proofs.Reading.Moved

namespace TagMigration.Reader

/-! ### The pieces -/

/-- A reader of nested content that reads nothing. -/
def refuse : ContentReader := fun cursor => fault cursor.offset .strayClose

/-- A statement that is no text and holds no content: an inline tag, a comment, or an element
without an end tag. -/
def single (cursor : Cursor) : Except Fault (Statement × Cursor) :=
  if (stop? cursor.rest).isNone ∧ endsText cursor.rest then statement refuse cursor
  else fault cursor.offset .strayClose

/-- The opening tag of a block. -/
def blockStart (cursor : Cursor) : Except Fault (BlockOpening × Cursor) :=
  if (stop? cursor.rest).isNone ∧ cursor.startsWith ['{', '{'] ∧
      ¬ cursor.startsWith ['{', '{', '{'] then
    match (cursor.skip 2).eatTilde.2.rest with
    | '#' :: '>' :: _ => fault cursor.offset (.unrecognized .partialBlock)
    | '#' :: '*' :: _ => fault cursor.offset (.unrecognized .decoratorBlock)
    | '#' :: _ =>
      blockOpening cursor (cursor.skip 2).eatTilde.1 .unnamedBlock
        ((cursor.skip 2).eatTilde.2.skip 1)
    | _ => fault cursor.offset .strayClose
  else fault cursor.offset .strayClose

/-- The `else` tag in front of a plain inverse: its `~` markers. -/
def elseTag (cursor : Cursor) : Except Fault (Trim × Cursor) :=
  if stop? cursor.rest = some .elseTag then
    match closer? .braces (elseWord cursor).2 with
    | some (trimAfter, after) => .ok (⟨(elseWord cursor).1, trimAfter⟩, after)
    | none => fault cursor.offset .strayElse
  else fault cursor.offset .strayElse

/-- The `else` tag that opens a chained block. -/
def elseOpening (cursor : Cursor) : Except Fault (BlockOpening × Cursor) :=
  if stop? cursor.rest = some .elseTag ∧ closer? .braces (elseWord cursor).2 = none then
    blockOpening cursor (elseWord cursor).1 .unnamedChain (elseWord cursor).2
  else fault cursor.offset .strayElse

/-- The closing tag of the block `name`: its `~` markers. -/
def blockEnd (name : String) (cursor : Cursor) : Except Fault (Trim × Cursor) :=
  if stop? cursor.rest = some .closeTag then blockClose name cursor
  else fault cursor.offset .strayClose

/-- The start tag of an element: its name and its pieces. -/
def elementStart (cursor : Cursor) : Except Fault ((String × StartTag) × Cursor) :=
  if startsElement cursor.rest then
    match tagName? (cursor.skip 1).rest with
    | none => fault cursor.offset .missingTagName
    | some run => do
      let afterName := (cursor.skip 1).skip run.length
      let (start, after) ←
        startTag (String.ofList run) cursor.offset afterName.rest.length afterName
      .ok ((String.ofList run, start), after)
  else fault cursor.offset .missingTagName

/-- The end tag of the element `tag`. -/
def elementEnd (tag : String) (cursor : Cursor) : Except Fault (Unit × Cursor) :=
  if stop? cursor.rest = some .closingTag then endTag tag cursor
  else fault cursor.offset .strayClosingTag

/-! ### The pieces at another offset -/

/-- An opening tag of a block `distance` bytes further on. -/
def BlockOpening.shift (distance : Nat) (opening : BlockOpening) : BlockOpening where
  begin := opening.begin + distance
  name := opening.name
  parts := opening.parts.mapSpans (moveSpan distance)
  trimBefore := opening.trimBefore
  span := opening.span.shift distance

theorem blockOpening_shift (distance : Nat) (begin cursor : Cursor) (trimBefore : Bool)
    (unnamed : Cause) :
    blockOpening (begin.shift distance) trimBefore unnamed (cursor.shift distance) =
      movedRead (BlockOpening.shift distance) distance
        (blockOpening begin trimBefore unnamed cursor) := by
  unfold blockOpening
  rw [Cursor.shift_offset, tagCall_shift]
  refine movedRead_bind fun parts after => ?_
  simp only [CallParts.mapSpans, Call.mapSpans_callee, Expression.name?_mapSpans]
  cases parts.call.callee.name? <;> rfl

theorem blockStart_shift (distance : Nat) (cursor : Cursor) :
    blockStart (cursor.shift distance) =
      movedRead (BlockOpening.shift distance) distance (blockStart cursor) := by
  unfold blockStart
  refine movedRead_ite ?_ rfl
  simp only [Cursor.skip_shift, Cursor.eatTilde_shift, Cursor.shift_rest]
  split
  · rfl
  · rfl
  · exact blockOpening_shift distance cursor _ _ _
  · rfl

theorem elseWord_shift (distance : Nat) (cursor : Cursor) :
    elseWord (cursor.shift distance) =
      ((elseWord cursor).1, (elseWord cursor).2.shift distance) := by
  simp only [elseWord, Cursor.skip_shift, Cursor.eatTilde_shift, Cursor.skipBlanks_shift]

theorem elseTag_shift (distance : Nat) (cursor : Cursor) :
    elseTag (cursor.shift distance) = movedRead id distance (elseTag cursor) := by
  unfold elseTag
  refine movedRead_ite ?_ rfl
  simp only [elseWord_shift, closer?_shift]
  cases closer? .braces (elseWord cursor).2 <;> rfl

theorem elseOpening_shift (distance : Nat) (cursor : Cursor) :
    elseOpening (cursor.shift distance) =
      movedRead (BlockOpening.shift distance) distance (elseOpening cursor) := by
  unfold elseOpening
  simp only [elseWord_shift, closer?_shift, Option.map_eq_none_iff, Cursor.shift_rest]
  exact movedRead_ite (blockOpening_shift distance cursor _ _ _) rfl

theorem blockClose_shift (distance : Nat) (name : String) (cursor : Cursor) :
    blockClose name (cursor.shift distance) = movedRead id distance (blockClose name cursor) := by
  simp only [blockClose, Cursor.skip_shift, Cursor.eatTilde_shift, Cursor.skipBlanks_shift,
    Cursor.shift_rest, closer?_shift]
  refine movedRead_ite rfl ?_
  cases closer? .braces ((((cursor.skip 2).eatTilde.2.skipBlanks.skip 1).skipBlanks).skip
      (nameRun (((cursor.skip 2).eatTilde.2.skipBlanks.skip 1).skipBlanks).rest).length).skipBlanks with
  | none => rfl
  | some found => exact movedRead_ite rfl rfl

theorem blockEnd_shift (distance : Nat) (name : String) (cursor : Cursor) :
    blockEnd name (cursor.shift distance) = movedRead id distance (blockEnd name cursor) :=
  movedRead_ite (blockClose_shift distance name cursor) rfl

theorem elementStart_shift (distance : Nat) (cursor : Cursor) :
    elementStart (cursor.shift distance) =
      movedRead (fun found => (found.1, found.2.mapSpans (moveSpan distance))) distance
        (elementStart cursor) := by
  unfold elementStart
  refine movedRead_ite ?_ rfl
  simp only [Cursor.skip_shift, Cursor.shift_rest]
  split
  · rfl
  · rw [Cursor.shift_offset, startTag_shift]
    exact movedRead_bind fun start after => rfl

theorem endTag_shift (distance : Nat) (tag : String) (cursor : Cursor) :
    endTag tag (cursor.shift distance) = movedRead id distance (endTag tag cursor) := by
  simp only [endTag, Cursor.skip_shift, Cursor.shift_rest]
  split
  · rfl
  · next run found =>
    simp only [Cursor.skipBlanks_shift, Cursor.eat?_shift]
    cases ((cursor.skip 2).skip run.length).skipBlanks.eat? ['>'] with
    | none => rfl
    | some after => exact movedRead_ite rfl rfl

theorem elementEnd_shift (distance : Nat) (tag : String) (cursor : Cursor) :
    elementEnd tag (cursor.shift distance) = movedRead id distance (elementEnd tag cursor) :=
  movedRead_ite (endTag_shift distance tag cursor) rfl

/-! ### Content at another offset -/

/-- Content as read with every span changed. -/
def mapContent (change : Option Span → Option Span) (found : List Statement × Stop) :
    List Statement × Stop :=
  (mapBody change found.1, found.2)

/-- What a block holds with every span changed. -/
def BlockContent.mapSpans (change : Option Span → Option Span) (content : BlockContent) :
    BlockContent where
  program := content.program.mapSpans change
  inverse := mapInverse change content.inverse
  elseTrim := content.elseTrim
  elseSpan := change content.elseSpan

theorem unclosed_shift (distance : Nat) (opening : BlockOpening) (stop : Stop) (cursor : Cursor)
    {content moved : BlockContent} (isMoved : moved = content.mapSpans (moveSpan distance)) :
    (do unclosed (opening.shift distance) stop (cursor.shift distance)
        .ok (moved, cursor.shift distance)) =
      movedRead (BlockContent.mapSpans (moveSpan distance)) distance
        (do unclosed opening stop cursor; .ok (content, cursor)) := by
  subst isMoved
  cases stop <;> rfl

section Content

variable {distance : Nat} {nested : ContentReader}
  (nestedMoves : ∀ cursor, nested (cursor.shift distance) =
    movedRead (mapContent (moveSpan distance)) distance (nested cursor))

include nestedMoves

theorem blockContent_shift : ∀ (size : Nat) (opening : BlockOpening) (cursor : Cursor),
    blockContent nested size (opening.shift distance) (cursor.shift distance) =
      movedRead (BlockContent.mapSpans (moveSpan distance)) distance
        (blockContent nested size opening cursor)
  | 0, _, _ => rfl
  | size + 1, opening, cursor => by
    unfold blockContent
    rw [nestedMoves]
    refine movedRead_bind fun found after => movedRead_ite ?_ ?_
    · exact unclosed_shift distance opening found.2 after rfl
    · simp only [elseWord_shift, closer?_shift]
      cases closer? .braces (elseWord after).2 with
      | some closed =>
        simp only [Option.map_some, nestedMoves]
        refine movedRead_bind fun inverse last => ?_
        exact unclosed_shift distance opening inverse.2 last rfl
      | none =>
        simp only [Option.map_none, blockOpening_shift]
        refine movedRead_bind fun chained last => ?_
        simp only [blockContent_shift size chained last]
        exact movedRead_bind fun content close => rfl

theorem block_shift (begin cursor : Cursor) (trimBefore : Bool) :
    block nested (begin.shift distance) trimBefore (cursor.shift distance) =
      movedRead (Statement.mapSpans (moveSpan distance)) distance
        (block nested begin trimBefore cursor) := by
  unfold block
  rw [blockOpening_shift]
  refine movedRead_bind fun opening after => ?_
  simp only [Cursor.shift_rest, blockContent_shift nestedMoves]
  refine movedRead_bind fun content close => ?_
  simp only [BlockOpening.shift, blockClose_shift]
  exact movedRead_bind fun closeTrim last => rfl

theorem curly_shift (cursor : Cursor) :
    curly nested (cursor.shift distance) =
      movedRead (Statement.mapSpans (moveSpan distance)) distance (curly nested cursor) := by
  unfold curly
  refine movedRead_ite rfl (movedRead_ite ?_ ?_)
  · rw [mustache_shift]
    exact movedRead_bind fun tag after => rfl
  · simp only [Cursor.skip_shift, Cursor.eatTilde_shift, Cursor.shift_rest]
    split
    · rw [curlyComment_shift]
      exact movedRead_bind fun remark after => rfl
    · rfl
    · rfl
    · exact block_shift nestedMoves cursor _ _
    · rfl
    · rfl
    · rfl
    · rfl
    · rw [mustache_shift]
      exact movedRead_bind fun tag after => rfl

theorem element_shift (cursor : Cursor) :
    element nested (cursor.shift distance) =
      movedRead (Statement.mapSpans (moveSpan distance)) distance (element nested cursor) := by
  simp only [element, Cursor.skip_shift, Cursor.shift_rest]
  split
  · rfl
  · rw [Cursor.shift_offset, startTag_shift]
    refine movedRead_bind fun start after => movedRead_ite rfl ?_
    rw [nestedMoves]
    refine movedRead_bind fun found close => movedRead_ite rfl ?_
    rw [endTag_shift]
    exact movedRead_bind fun done last => rfl

theorem statement_shift (cursor : Cursor) :
    statement nested (cursor.shift distance) =
      movedRead (Statement.mapSpans (moveSpan distance)) distance (statement nested cursor) := by
  unfold statement
  refine movedRead_ite (curly_shift nestedMoves cursor) (movedRead_ite ?_ (movedRead_ite ?_ ?_))
  · rw [comment_shift]
    exact movedRead_bind fun remark after => rfl
  · exact element_shift nestedMoves cursor
  · simp only [text, Cursor.shift_rest, Cursor.skip_shift, Cursor.spanTo_shift]
    rfl

end Content

theorem single_shift (distance : Nat) (cursor : Cursor) :
    single (cursor.shift distance) =
      movedRead (Statement.mapSpans (moveSpan distance)) distance (single cursor) :=
  movedRead_ite (statement_shift (fun _ => rfl) cursor) rfl

theorem contentWithin_shift (distance : Nat) : ∀ (size : Nat) (cursor : Cursor),
    contentWithin size (cursor.shift distance) =
      movedRead (mapContent (moveSpan distance)) distance (contentWithin size cursor)
  | 0, _ => rfl
  | size + 1, cursor => by
    rw [contentWithin, contentWithin, Cursor.shift_rest]
    split
    · rfl
    · rw [statement_shift (contentWithin_shift distance size)]
      refine movedRead_bind fun first after => ?_
      simp only [contentWithin_shift distance size after]
      exact movedRead_bind fun found last => rfl

end TagMigration.Reader
