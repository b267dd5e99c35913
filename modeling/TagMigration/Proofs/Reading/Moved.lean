/-
Reading at another offset. A reader looks only at the characters from its place on; the
offset goes into spans and into the blame of a fault and nowhere else. So a reader that
is started `distance` bytes further on, in front of the same characters, yields the same
result with every span and every blamed offset moved by that distance. One such equation
for each reader, faults included, because then it can be used in both directions.
-/
import TagMigration.Proofs.Tree.Spans

namespace TagMigration

/-! ### Moving a place and a result -/

/-- The same characters at an offset `distance` bytes further on. -/
def Cursor.shift (distance : Nat) (cursor : Cursor) : Cursor :=
  ⟨cursor.offset + distance, cursor.rest⟩

/-- The same cause, blamed on an offset `distance` bytes further on. -/
def Fault.shift (distance : Nat) (fault : Fault) : Fault :=
  ⟨fault.offset + distance, fault.cause⟩

/-- The result of a reader that was started `distance` bytes further on; `move` moves what was
read. -/
def movedRead {Result : Type} (move : Result → Result) (distance : Nat) :
    Except Fault (Result × Cursor) → Except Fault (Result × Cursor)
  | .ok (value, after) => .ok (move value, after.shift distance)
  | .error fault => .error (fault.shift distance)

section Cursor

variable (distance : Nat) (cursor later : Cursor)

@[simp]
theorem Cursor.shift_rest : (cursor.shift distance).rest = cursor.rest := rfl

@[simp]
theorem Cursor.shift_offset : (cursor.shift distance).offset = cursor.offset + distance := rfl

@[simp]
theorem Cursor.skip_shift (count : Nat) :
    (cursor.shift distance).skip count = (cursor.skip count).shift distance := by
  simp only [Cursor.skip, Cursor.shift, Nat.add_right_comm]

@[simp]
theorem Cursor.skipBlanks_shift :
    (cursor.shift distance).skipBlanks = cursor.skipBlanks.shift distance :=
  Cursor.skip_shift _ _ _

@[simp]
theorem Cursor.startsWith_shift (token : List Char) :
    (cursor.shift distance).startsWith token = cursor.startsWith token := rfl

@[simp]
theorem Cursor.eat?_shift (token : List Char) :
    (cursor.shift distance).eat? token = (cursor.eat? token).map (Cursor.shift distance) := by
  unfold Cursor.eat?
  rw [Cursor.startsWith_shift]
  split
  · rw [Cursor.skip_shift, Option.map_some]
  · rfl

@[simp]
theorem Cursor.eatTilde_shift :
    (cursor.shift distance).eatTilde =
      (cursor.eatTilde.1, cursor.eatTilde.2.shift distance) := by
  unfold Cursor.eatTilde
  rw [Cursor.eat?_shift]
  cases cursor.eat? ['~'] <;> rfl

@[simp]
theorem Cursor.spanTo_shift :
    (cursor.shift distance).spanTo (later.shift distance) = (cursor.spanTo later).shift distance :=
  rfl

end Cursor

@[simp]
theorem movedRead_ok {Result : Type} (move : Result → Result) (distance : Nat) (value : Result)
    (after : Cursor) :
    movedRead move distance (.ok (value, after)) = .ok (move value, after.shift distance) := rfl

/-- Sequencing moves if what follows does. -/
theorem movedRead_bind {First Second : Type} {moveFirst : First → First}
    {moveSecond : Second → Second} {distance : Nat} {read : Except Fault (First × Cursor)}
    {next moved : First × Cursor → Except Fault (Second × Cursor)}
    (follows : ∀ value after, moved (moveFirst value, after.shift distance) =
      movedRead moveSecond distance (next (value, after))) :
    (movedRead moveFirst distance read >>= moved) =
      movedRead moveSecond distance (read >>= next) := by
  cases read with
  | error fault => rfl
  | ok result => exact follows result.1 result.2

/-- A choice moves if both of its branches do. -/
theorem movedRead_ite {Result : Type} {move : Result → Result} {distance : Nat} {condition : Prop}
    [Decidable condition] {first second movedFirst movedSecond : Except Fault (Result × Cursor)}
    (positive : movedFirst = movedRead move distance first)
    (negative : movedSecond = movedRead move distance second) :
    (if condition then movedFirst else movedSecond) =
      movedRead move distance (if condition then first else second) := by
  rw [positive, negative, apply_ite (movedRead move distance)]

namespace Reader

/-! ### Expressions and calls -/

theorem blockParams_shift (distance : Nat) (cursor : Cursor) :
    blockParams (cursor.shift distance) = movedRead id distance (blockParams cursor) := by
  simp only [blockParams, Cursor.shift_rest, Cursor.skip_shift]
  split
  · rfl
  · split <;> rfl

theorem wordExpression_mapSpans (change : Option Span → Option Span) (name : List Char)
    (span : Option Span) :
    (wordExpression name span).mapSpans change = wordExpression name (change span) := by
  simp only [wordExpression]
  split
  · rfl
  · split
    · rfl
    · split
      · rfl
      · split <;> rfl

theorem atom_shift (distance : Nat) (cursor : Cursor) :
    atom (cursor.shift distance) =
      movedRead (Expression.mapSpans (moveSpan distance)) distance (atom cursor) := by
  unfold atom
  simp only [Cursor.shift_rest, Cursor.skip_shift, Cursor.spanTo_shift]
  split
  · rfl
  · split
    · rfl
    · rw [movedRead_ok, wordExpression_mapSpans, moveSpan_some]

theorem stringLiteral_shift (distance : Nat) (quote : Char) (cursor : Cursor) :
    stringLiteral quote (cursor.shift distance) =
      movedRead (Expression.mapSpans (moveSpan distance)) distance
        (stringLiteral quote cursor) := by
  simp only [stringLiteral, Cursor.shift_rest, Cursor.skip_shift, Cursor.spanTo_shift]
  split <;> rfl

theorem closer?_shift (distance : Nat) (closer : Closer) (cursor : Cursor) :
    closer? closer (cursor.shift distance) =
      (closer? closer cursor).map fun found => (found.1, found.2.shift distance) := by
  unfold closer?
  simp only [Cursor.startsWith_shift, Cursor.skip_shift]
  split
  · rfl
  · split <;> rfl

section Calls

variable {distance : Nat} {nested : Cursor → Except Fault (Expression × Cursor)}
  (nestedMoves : ∀ cursor, nested (cursor.shift distance) =
    movedRead (Expression.mapSpans (moveSpan distance)) distance (nested cursor))

include nestedMoves

theorem arguments_shift (closer : Closer) (begin : Nat) :
    ∀ (size : Nat) (named : Bool) (cursor : Cursor),
      arguments nested closer (begin + distance) size named (cursor.shift distance) =
        movedRead (Arguments.mapSpans (moveSpan distance)) distance
          (arguments nested closer begin size named cursor)
  | 0, _, _ => rfl
  | size + 1, named, cursor => by
    unfold arguments
    simp only [Cursor.skipBlanks_shift, Cursor.shift_rest, closer?_shift]
    split
    · rfl
    cases closer? closer cursor.skipBlanks with
    | some found => rfl
    | none =>
      simp only [Option.map_none]
      cases paramsIntro? cursor.skipBlanks.rest with
      | some intro =>
        simp only [Cursor.skip_shift, blockParams_shift]
        refine movedRead_bind fun params after => ?_
        simp only [id, arguments_shift closer begin size named after]
        exact movedRead_bind fun more last => rfl
      | none =>
        cases namedKey? cursor.skipBlanks.rest with
        | some found =>
          simp only [Cursor.skip_shift, Cursor.skipBlanks_shift, nestedMoves]
          refine movedRead_bind fun value after => ?_
          simp only [arguments_shift closer begin size true after]
          exact movedRead_bind fun more last => rfl
        | none =>
          simp only
          split
          · rfl
          · rw [nestedMoves]
            refine movedRead_bind fun argument after => ?_
            simp only [arguments_shift closer begin size false after]
            exact movedRead_bind fun more last => rfl

theorem callParts_shift (closer : Closer) (begin : Nat) (cursor : Cursor) :
    callParts nested closer (begin + distance) (cursor.shift distance) =
      movedRead (CallParts.mapSpans (moveSpan distance)) distance
        (callParts nested closer begin cursor) := by
  unfold callParts
  rw [Cursor.skipBlanks_shift, nestedMoves]
  refine movedRead_bind fun callee after => ?_
  simp only [Cursor.shift_rest, arguments_shift nestedMoves]
  exact movedRead_bind fun given last => rfl

end Calls

theorem expressionWithin_shift (distance : Nat) :
    ∀ (size : Nat) (cursor : Cursor),
      expressionWithin size (cursor.shift distance) =
        movedRead (Expression.mapSpans (moveSpan distance)) distance
          (expressionWithin size cursor)
  | 0, _ => rfl
  | size + 1, cursor => by
    unfold expressionWithin
    rw [Cursor.shift_rest]
    split
    · rfl
    · simp only [Cursor.shift_offset, Cursor.skip_shift,
        callParts_shift (expressionWithin_shift distance size)]
      refine movedRead_bind fun parts after => ?_
      exact movedRead_ite rfl rfl
    · split
      · exact stringLiteral_shift distance _ cursor
      · exact atom_shift distance cursor

theorem expression_shift (distance : Nat) (cursor : Cursor) :
    expression (cursor.shift distance) =
      movedRead (Expression.mapSpans (moveSpan distance)) distance (expression cursor) :=
  expressionWithin_shift distance _ cursor

theorem tagCall_shift (distance : Nat) (closer : Closer) (begin : Nat) (cursor : Cursor) :
    tagCall closer (begin + distance) (cursor.shift distance) =
      movedRead (CallParts.mapSpans (moveSpan distance)) distance
        (tagCall closer begin cursor) :=
  callParts_shift (expression_shift distance) closer begin cursor

/-! ### Inline tags and comments -/

theorem mustache_shift (distance : Nat) (cursor : Cursor) :
    mustache (cursor.shift distance) =
      movedRead (Mustache.mapSpans (moveSpan distance)) distance (mustache cursor) := by
  simp only [mustache, Cursor.startsWith_shift, Cursor.skip_shift, Cursor.eatTilde_shift,
    Cursor.shift_offset]
  refine movedRead_ite rfl ?_
  rw [tagCall_shift]
  exact movedRead_bind fun parts after => movedRead_ite rfl rfl

theorem curlyComment_shift (distance : Nat) (begin cursor : Cursor) :
    curlyComment (begin.shift distance) (cursor.shift distance) =
      movedRead (CurlyComment.mapSpans (moveSpan distance)) distance
        (curlyComment begin cursor) := by
  have inside : (if (cursor.skip 1).startsWith ['-', '-'] then
        ((cursor.skip 1).shift distance).skip 2 else (cursor.skip 1).shift distance) =
      (if (cursor.skip 1).startsWith ['-', '-'] then
        (cursor.skip 1).skip 2 else cursor.skip 1).shift distance := by
    rw [Cursor.skip_shift, apply_ite (Cursor.shift distance)]
  simp only [curlyComment, Cursor.skip_shift, Cursor.startsWith_shift] at inside ⊢
  rw [inside]
  simp only [Cursor.shift_rest, Cursor.skip_shift, Cursor.spanTo_shift]
  split <;> rfl

theorem comment_shift (distance : Nat) (cursor : Cursor) :
    comment (cursor.shift distance) =
      movedRead (Comment.mapSpans (moveSpan distance)) distance (comment cursor) := by
  simp only [comment, Cursor.skip_shift, Cursor.shift_rest, Cursor.spanTo_shift]
  split <;> rfl

/-! ### Start tags -/

theorem textPart_map (distance : Nat) (text : List Char) (span : Span) :
    textPart text (span.shift distance) =
      (textPart text span).map (ValuePart.mapSpans (moveSpan distance)) := by
  unfold textPart
  split <;> rfl

theorem valueParts_shift (distance : Nat) (quote : Char) (begin : Nat) :
    ∀ (size : Nat) (cursor : Cursor),
      valueParts quote (begin + distance) size (cursor.shift distance) =
        movedRead (List.map (ValuePart.mapSpans (moveSpan distance))) distance
          (valueParts quote begin size cursor)
  | 0, _ => rfl
  | size + 1, cursor => by
    simp only [valueParts, Cursor.shift_rest, Cursor.skip_shift, Cursor.spanTo_shift,
      Cursor.startsWith_shift, textPart_map]
    split
    · rfl
    · split
      · rfl
      · rw [mustache_shift]
        refine movedRead_bind fun tag after => ?_
        simp only [valueParts_shift distance quote begin size after]
        refine movedRead_bind fun more last => ?_
        rw [movedRead_ok, List.map_append, List.map_cons]
        rfl

theorem plainText?_map (change : Option Span → Option Span) (parts : List ValuePart) :
    plainText? (parts.map (ValuePart.mapSpans change)) = plainText? parts := by
  induction parts with
  | nil => rfl
  | cons part rest inductionHypothesis =>
    cases part with
    | text run =>
      simp only [List.map_cons, ValuePart.mapSpans, plainText?, inductionHypothesis,
        TextRun.mapSpans]
    | mustache tag => rfl

theorem quotedValue_shift (distance : Nat) (quote : Char) (cursor : Cursor) :
    quotedValue quote (cursor.shift distance) =
      movedRead (AttributeValue.mapSpans (moveSpan distance)) distance
        (quotedValue quote cursor) := by
  simp only [quotedValue, Cursor.skip_shift, Cursor.shift_rest, Cursor.shift_offset,
    valueParts_shift]
  refine movedRead_bind fun parts after => ?_
  simp only [plainText?_map]
  split <;> rfl

theorem attributeValue_shift (distance : Nat) (name : String) (cursor : Cursor) :
    attributeValue name (cursor.shift distance) =
      movedRead (AttributeValue.mapSpans (moveSpan distance)) distance
        (attributeValue name cursor) := by
  simp only [attributeValue, Cursor.shift_rest]
  split
  · exact quotedValue_shift distance _ cursor
  · exact quotedValue_shift distance _ cursor
  · rw [mustache_shift]
    exact movedRead_bind fun tag after => rfl
  · rw [Cursor.skip_shift]
    exact movedRead_ite rfl rfl

theorem attr_shift (distance : Nat) (tag : String) (cursor : Cursor) :
    attr tag (cursor.shift distance) =
      movedRead (Attribute.mapSpans (moveSpan distance)) distance (attr tag cursor) := by
  simp only [attr, Cursor.shift_rest, Cursor.skip_shift, Cursor.skipBlanks_shift,
    Cursor.eat?_shift]
  split
  · rfl
  · cases (cursor.skip (cursor.rest.takeWhile isAttributeChar).length).skipBlanks.eat? ['='] with
    | none => rfl
    | some afterEquals =>
      simp only [Option.map_some, Cursor.skipBlanks_shift, attributeValue_shift]
      exact movedRead_bind fun value after => rfl

theorem startTag_shift (distance : Nat) (tag : String) (begin : Nat) :
    ∀ (size : Nat) (cursor : Cursor),
      startTag tag (begin + distance) size (cursor.shift distance) =
        movedRead (StartTag.mapSpans (moveSpan distance)) distance
          (startTag tag begin size cursor)
  | 0, _ => rfl
  | size + 1, cursor => by
    have onwards := startTag_shift distance tag begin size
    simp only [startTag, Cursor.skipBlanks_shift, Cursor.shift_rest, Cursor.startsWith_shift,
      Cursor.skip_shift, Cursor.eatTilde_shift]
    split
    · rfl
    split
    · rfl
    split
    · rfl
    split
    · rw [curlyComment_shift]
      exact movedRead_bind fun remark after => onwards after
    split
    · rw [Cursor.shift_offset, tagCall_shift]
      refine movedRead_bind fun parts after => ?_
      simp only [onwards after]
      exact movedRead_bind fun more last => rfl
    · cases paramsIntro? cursor.skipBlanks.rest with
      | some intro =>
        simp only [blockParams_shift]
        refine movedRead_bind fun params after => ?_
        simp only [id, onwards after]
        exact movedRead_bind fun more last => rfl
      | none =>
        simp only [attr_shift]
        refine movedRead_bind fun first after => ?_
        simp only [onwards after]
        exact movedRead_bind fun more last => rfl

end Reader

end TagMigration
