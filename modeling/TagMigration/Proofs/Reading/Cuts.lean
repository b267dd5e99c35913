/-
Every span that is read cuts the source. The reader goes through the source character by
character and gives a node the span between two of the places it came through, the later one
second. So if it begins at a place in the source, it ends at a later one, and every span in what
it has read is in order, in range and on character boundaries.
-/
import TagMigration.Proofs.Reading.Ordered
import TagMigration.Proofs.Tree.Cuts

namespace TagMigration.Reader

/-! ### Places in the source -/

/-- From one place the reader has come to a later place in the source. -/
structure Reached (source : List Char) (cursor after : Cursor) : Prop where
  stands : Stands source after.offset after.rest
  order : cursor.offset ≤ after.offset

/-- Whatever is read from a place in the source, the reader comes to a later place in it, and all the
spans of what it has read cut the source. -/
def ReadsCut {α : Type} (source : List Char) (spans : α → List Span)
    (read : Cursor → Except Fault (α × Cursor)) : Prop :=
  ∀ cursor value after, Stands source cursor.offset cursor.rest →
    read cursor = .ok (value, after) → Reached source cursor after ∧ AllCut source (spans value)

section Places

variable {source : List Char} {cursor between after : Cursor}

theorem reached_self (stands : Stands source cursor.offset cursor.rest) :
    Reached source cursor cursor :=
  ⟨stands, Nat.le_refl _⟩

theorem reached_skip (stands : Stands source cursor.offset cursor.rest) (count : Nat) :
    Reached source cursor (cursor.skip count) :=
  ⟨stands_skip stands count, Nat.le_add_right _ _⟩

theorem Reached.trans (reached : Reached source cursor between)
    (further : Reached source between after) : Reached source cursor after :=
  ⟨further.stands, Nat.le_trans reached.order further.order⟩

theorem Reached.skip (reached : Reached source cursor after) (count : Nat) :
    Reached source cursor (after.skip count) :=
  reached.trans (reached_skip reached.stands count)

theorem Reached.skipBlanks (reached : Reached source cursor after) :
    Reached source cursor after.skipBlanks :=
  reached.skip _

theorem Reached.eatTilde (reached : Reached source cursor after) :
    Reached source cursor after.eatTilde.2 := by
  rw [Cursor.eatTilde, Cursor.eat?]
  split
  · next eaten =>
    split at eaten
    · cases eaten
      exact reached.skip _
    · cases eaten
  · exact reached

/-- The span between two places cuts the source. -/
theorem Reached.cuts (stands : Stands source cursor.offset cursor.rest)
    (reached : Reached source cursor after) : AllCut source (some (cursor.spanTo after)).toList := by
  intro span member
  obtain rfl : span = cursor.spanTo after := List.mem_singleton.mp member
  obtain ⟨front, back, isSource, starts⟩ := stands
  obtain ⟨first, rest, isSourceToo, stops⟩ := reached.stands
  refine ⟨reached.order, ?_, ⟨front, _, isSource, starts⟩, first, _, isSourceToo, stops⟩
  rw [isSourceToo, byteSize_append, stops]
  exact Nat.le_add_right _ _

theorem cuts_skip (stands : Stands source cursor.offset cursor.rest) (count : Nat) :
    Reached source cursor (cursor.skip count) ∧
      AllCut source (some (cursor.spanTo (cursor.skip count))).toList :=
  ⟨reached_skip stands count, (reached_skip stands count).cuts stands⟩

theorem ReadsCut.onward {α : Type} {spans : α → List Span}
    {read : Cursor → Except Fault (α × Cursor)} (reads : ReadsCut source spans read) {value : α}
    (success : read between = .ok (value, after)) (reached : Reached source cursor between) :
    Reached source cursor after ∧ AllCut source (spans value) := by
  obtain ⟨further, cuts⟩ := reads _ _ _ reached.stands success
  exact ⟨reached.trans further, cuts⟩

theorem closer?_reached {closer : Closer} {trim : Bool}
    (stands : Stands source cursor.offset cursor.rest)
    (closed : closer? closer cursor = some (trim, after)) : Reached source cursor after := by
  rw [closer?] at closed
  split at closed
  · cases closed
    exact reached_skip stands _
  · split at closed
    · cases closed
      exact reached_skip stands _
    · cases closed

end Places

/-! ### Expressions and calls -/

section Expressions

variable {source : List Char}

theorem readsCut_blockParams : ReadsCut source (fun _ => []) blockParams := by
  intro cursor names after stands success
  rw [blockParams] at success
  split at success
  · cases success
  · simp only at success
    split at success
    · cases success
    · cases success
      exact ⟨reached_skip stands _, allCut_nil⟩

theorem spans_wordExpression (name : List Char) (span : Option Span) :
    (wordExpression name span).spans = span.toList := by
  simp only [wordExpression]
  split
  · rfl
  · split
    · rfl
    · split
      · rfl
      · split <;> rfl

theorem readsCut_atom : ReadsCut source Expression.spans atom := by
  intro cursor value after stands success
  simp only [atom] at success
  split at success
  · cases success
    exact cuts_skip stands _
  · split at success
    · cases success
    · cases success
      rw [spans_wordExpression]
      exact cuts_skip stands _

theorem readsCut_stringLiteral (quote : Char) :
    ReadsCut source Expression.spans (stringLiteral quote) := by
  intro cursor value after stands success
  rw [stringLiteral] at success
  split at success
  · cases success
  · cases success
    exact cuts_skip stands _

variable {nested : Cursor → Except Fault (Expression × Cursor)}

/-- The spans of the arguments of a call. -/
def Arguments.spans (given : Arguments) : List Span :=
  positionalSpans given.positional ++ namedSpans given.named

theorem readsCut_given (inside : ReadsCut source Expression.spans nested) {closer : Closer}
    {sawNamed : Bool} {cursor after : Cursor} {given : Arguments}
    (reads : GivenAs nested closer sawNamed cursor given after)
    (stands : Stands source cursor.offset cursor.rest) :
    Reached source cursor after ∧ AllCut source given.spans := by
  induction reads with
  | closed found =>
    have blanks := (reached_self stands).skipBlanks
    exact ⟨blanks.trans (closer?_reached blanks.stands found), allCut_nil⟩
  | params introduced reads more inductionHypothesis =>
    obtain ⟨reached, -⟩ := readsCut_blockParams.onward reads ((reached_self stands).skipBlanks.skip _)
    obtain ⟨further, cuts⟩ := inductionHypothesis reached.stands
    exact ⟨reached.trans further, cuts⟩
  | named keyed reads more inductionHypothesis =>
    have blanks := (reached_self stands).skipBlanks
    obtain ⟨upTo, cuts⟩ := inside.onward reads ((reached_self blanks.stands).skip _).skipBlanks
    obtain ⟨further, cutsMore⟩ := inductionHypothesis upTo.stands
    simp only [Arguments.spans, namedSpans, NamedArgument.spans, allCut_append] at cutsMore ⊢
    exact ⟨(blanks.trans upTo).trans further, cutsMore.1, ⟨upTo.cuts blanks.stands, cuts⟩,
      cutsMore.2⟩
  | positional reads more inductionHypothesis =>
    obtain ⟨upTo, cuts⟩ := inside.onward reads (reached_self stands).skipBlanks
    obtain ⟨further, cutsMore⟩ := inductionHypothesis upTo.stands
    simp only [Arguments.spans, positionalSpans, allCut_append] at cutsMore ⊢
    exact ⟨upTo.trans further, ⟨cuts, cutsMore.1⟩, cutsMore.2⟩

theorem readsCut_callParts (inside : ReadsCut source Expression.spans nested) (closer : Closer)
    (begin : Nat) :
    ReadsCut source (fun parts => parts.call.spans) (callParts nested closer begin) := by
  intro cursor parts after stands success
  obtain ⟨callee, between, given, readCallee, readGiven, rfl⟩ := callParts_eq_ok success
  obtain ⟨upTo, cuts⟩ := inside.onward readCallee (reached_self stands).skipBlanks
  obtain ⟨further, cutsGiven⟩ := readsCut_given inside readGiven upTo.stands
  simp only [Arguments.spans, Call.spans, allCut_append] at cutsGiven ⊢
  exact ⟨upTo.trans further, ⟨cuts, cutsGiven.1⟩, cutsGiven.2⟩

theorem readsCut_expressionWithin (size : Nat) :
    ReadsCut source Expression.spans (expressionWithin size) := by
  induction size with
  | zero =>
    intro cursor value after stands success
    cases success
  | succ size inductionHypothesis =>
    intro cursor value after stands success
    rw [expressionWithin] at success
    split at success
    · cases success
    · obtain ⟨⟨parts, last⟩, readParts, success⟩ := bind_eq_ok success
      simp only at success
      split at success
      · cases success
        obtain ⟨reached, cuts⟩ :=
          (readsCut_callParts inductionHypothesis _ _).onward readParts (reached_skip stands 1)
        rw [Expression.spans, allCut_append]
        exact ⟨reached, reached.cuts stands, cuts⟩
      · cases success
    · split at success
      · exact readsCut_stringLiteral _ _ _ _ stands success
      · exact readsCut_atom _ _ _ stands success

theorem readsCut_expression : ReadsCut source Expression.spans expression :=
  fun cursor => readsCut_expressionWithin cursor.rest.length cursor

theorem readsCut_tagCall (closer : Closer) (begin : Nat) :
    ReadsCut source (fun parts => parts.call.spans) (tagCall closer begin) :=
  readsCut_callParts readsCut_expression closer begin

/-! ### Inline tags and values -/

theorem readsCut_mustache : ReadsCut source Mustache.spans mustache := by
  intro cursor tag after stands success
  obtain ⟨-, -, span, parts, readParts, call, -⟩ := mustache_eq_ok success
  obtain ⟨reached, cuts⟩ :=
    (readsCut_tagCall _ _).onward readParts ((reached_self stands).skip _).eatTilde
  rw [Mustache.spans, allCut_append, span, call]
  exact ⟨reached, reached.cuts stands, cuts⟩

/-- A comment is read to a later place. Its span begins elsewhere. -/
theorem readsCut_curlyComment (begin : Cursor) :
    ReadsCut source (fun _ => []) (curlyComment begin) := by
  intro cursor remark after stands success
  simp only [curlyComment] at success
  have marked := reached_skip stands 1
  have inside : Reached source cursor (if (cursor.skip 1).startsWith ['-', '-'] = true then
      (cursor.skip 1).skip 2 else cursor.skip 1) := by
    split
    · exact marked.skip 2
    · exact marked
  split at success
  · cases success
  · cases success
    exact ⟨inside.skip _, allCut_nil⟩

theorem readsCut_valueParts (quote : Char) (begin : Nat) : ∀ size,
    ReadsCut source (fun parts => parts.flatMap ValuePart.spans)
      (valueParts quote begin size) := by
  intro size
  induction size with
  | zero =>
    intro cursor parts after stands success
    cases success
  | succ size inductionHypothesis =>
    intro cursor parts after stands success
    rw [valueParts] at success
    simp only at success
    obtain ⟨reached, cutsText⟩ := cuts_skip stands (valueText quote cursor.rest).length
    have cutsPart : AllCut source ((textPart (valueText quote cursor.rest) (cursor.spanTo
        (cursor.skip (valueText quote cursor.rest).length))).flatMap ValuePart.spans) := by
      rw [textPart]
      split
      · exact allCut_nil
      · rw [List.flatMap_singleton]
        exact cutsText
    split at success
    · cases success
    · split at success
      · cases success
        exact ⟨reached.skip 1, cutsPart⟩
      · obtain ⟨⟨tag, afterTag⟩, readTag, success⟩ := bind_eq_ok success
        obtain ⟨⟨more, last⟩, readMore, success⟩ := bind_eq_ok success
        cases success
        obtain ⟨reachedTag, cutsTag⟩ := readsCut_mustache.onward readTag reached
        obtain ⟨further, cutsMore⟩ := inductionHypothesis.onward readMore reachedTag
        simp only [List.flatMap_append, List.flatMap_cons, allCut_append]
        exact ⟨further, cutsPart, cutsTag, cutsMore⟩

theorem readsCut_quotedValue (quote : Char) :
    ReadsCut source AttributeValue.spans (quotedValue quote) := by
  intro cursor value after stands success
  rw [quotedValue] at success
  obtain ⟨⟨parts, last⟩, readParts, success⟩ := bind_eq_ok success
  obtain ⟨reached, cuts⟩ := (readsCut_valueParts _ _ _).onward readParts (reached_skip stands 1)
  simp only at success
  split at success
  · cases success
    exact ⟨reached, reached.cuts stands⟩
  · cases success
    rw [AttributeValue.spans, allCut_append]
    exact ⟨reached, reached.cuts stands, cuts⟩

theorem readsCut_attributeValue (name : String) :
    ReadsCut source AttributeValue.spans (attributeValue name) := by
  intro cursor value after stands success
  unfold attributeValue at success
  split at success
  · exact readsCut_quotedValue _ _ _ _ stands success
  · exact readsCut_quotedValue _ _ _ _ stands success
  · obtain ⟨⟨tag, last⟩, readTag, success⟩ := bind_eq_ok success
    cases success
    exact readsCut_mustache _ _ _ stands readTag
  · simp only at success
    split at success
    · cases success
    · cases success
      exact cuts_skip stands _

theorem readsCut_attr (tag : String) : ReadsCut source Attribute.spans (attr tag) := by
  intro cursor found after stands success
  obtain ⟨-, span, ⟨noValue, rfl⟩ | readValue⟩ := attr_eq_ok success
  · obtain ⟨reached, cuts⟩ := cuts_skip stands (cursor.rest.takeWhile isAttributeChar).length
    rw [Attribute.spans, span, noValue, allCut_append]
    exact ⟨reached, cuts, allCut_nil⟩
  · obtain ⟨reached, cuts⟩ := (readsCut_attributeValue _).onward readValue
      (((reached_self stands).skip _).skipBlanks.skip _).skipBlanks
    rw [Attribute.spans, span, allCut_append]
    exact ⟨reached, reached.cuts stands, cuts⟩

end Expressions

/-! ### Tags -/

section Tags

variable {source : List Char}

/-- The spans of the pieces of a start tag. -/
def StartTag.spans (start : StartTag) : List Span :=
  start.attributes.flatMap Attribute.spans ++ start.modifiers.flatMap Modifier.spans

theorem readsCut_startTag (tag : String) (begin : Nat) : ∀ size,
    ReadsCut source StartTag.spans (startTag tag begin size) := by
  intro size
  induction size with
  | zero =>
    intro cursor start after stands success
    cases success
  | succ size inductionHypothesis =>
    intro cursor start after stands success
    have blanks := (reached_self stands).skipBlanks
    rw [startTag] at success
    generalize cursor.skipBlanks = place at success blanks
    simp only at success
    split at success
    · cases success
    · split at success
      · cases success
        exact ⟨blanks.skip 2, allCut_nil⟩
      · split at success
        · cases success
          exact ⟨blanks.skip 1, allCut_nil⟩
        · split at success
          · obtain ⟨⟨remark, afterRemark⟩, readRemark, success⟩ := bind_eq_ok success
            obtain ⟨reached, -⟩ :=
              (readsCut_curlyComment _).onward readRemark (blanks.skip 2).eatTilde
            exact inductionHypothesis.onward success reached
          · split at success
            · obtain ⟨⟨parts, afterParts⟩, readParts, success⟩ := bind_eq_ok success
              obtain ⟨⟨more, last⟩, readMore, success⟩ := bind_eq_ok success
              cases success
              obtain ⟨upTo, cuts⟩ := (readsCut_tagCall _ _).onward readParts
                ((reached_self blanks.stands).skip 2).eatTilde
              obtain ⟨reached, cutsMore⟩ := inductionHypothesis.onward readMore (blanks.trans upTo)
              simp only [StartTag.spans, List.flatMap_cons, Modifier.spans, allCut_append]
                at cutsMore ⊢
              exact ⟨reached, cutsMore.1, ⟨upTo.cuts blanks.stands, cuts⟩, cutsMore.2⟩
            · split at success
              · obtain ⟨⟨params, afterParams⟩, readParams, success⟩ := bind_eq_ok success
                obtain ⟨⟨more, last⟩, readMore, success⟩ := bind_eq_ok success
                cases success
                obtain ⟨reached, -⟩ := readsCut_blockParams.onward readParams (blanks.skip _)
                obtain ⟨further, cuts⟩ := inductionHypothesis.onward readMore reached
                exact ⟨further, cuts⟩
              · obtain ⟨⟨first, afterFirst⟩, readFirst, success⟩ := bind_eq_ok success
                obtain ⟨⟨more, last⟩, readMore, success⟩ := bind_eq_ok success
                cases success
                obtain ⟨upTo, cuts⟩ := (readsCut_attr tag).onward readFirst blanks
                obtain ⟨reached, cutsMore⟩ := inductionHypothesis.onward readMore upTo
                simp only [StartTag.spans, List.flatMap_cons, allCut_append] at cutsMore ⊢
                exact ⟨reached, ⟨cuts, cutsMore.1⟩, cutsMore.2⟩

theorem readsCut_elementStart :
    ReadsCut source (fun found => found.2.spans) elementStart := by
  intro cursor found after stands success
  unfold elementStart at success
  split at success
  · split at success
    · cases success
    · obtain ⟨⟨start, last⟩, readStart, success⟩ := bind_eq_ok success
      cases success
      exact (readsCut_startTag _ _ _).onward readStart (((reached_self stands).skip 1).skip _)
  · cases success

theorem readsCut_blockOpening (begin : Cursor) (trimBefore : Bool) (unnamed : Cause) :
    ReadsCut source (fun opening => opening.parts.call.spans)
      (blockOpening begin trimBefore unnamed) := by
  intro cursor opening after stands success
  exact (readsCut_tagCall _ _).onward (blockOpening_eq_ok success).1 (reached_self stands)

theorem readsCut_blockStart :
    ReadsCut source (fun opening => opening.parts.call.spans) blockStart := by
  intro cursor opening after stands success
  unfold blockStart at success
  split at success
  · split at success
    · cases success
    · cases success
    · exact (readsCut_blockOpening _ _ _).onward success
        (((reached_self stands).skip 2).eatTilde.skip 1)
    · cases success
  · cases success

theorem readsCut_elseOpening :
    ReadsCut source (fun opening => opening.parts.call.spans) elseOpening := by
  intro cursor opening after stands success
  unfold elseOpening at success
  split at success
  · exact (readsCut_blockOpening _ _ _).onward success
      ((((reached_self stands).skip 2).eatTilde.skipBlanks.skip 4).skipBlanks)
  · cases success

/-- What is taken from a text that stands in the source has spans that cut the source. -/
theorem ReadsCut.allCut {α : Type} {spans : α → List Span}
    {read : Cursor → Except Fault (α × Cursor)} (reads : ReadsCut source spans read) {offset : Nat}
    {text : List Char} {value : α} (takes : Takes read offset text value)
    (stands : Stands source offset text) : AllCut source (spans value) := by
  have success := takes []
  rw [List.append_nil] at success
  exact (reads ⟨offset, text⟩ _ _ stands success).2

end Tags

/-! ### Nodes -/

section Nodes

variable {source : List Char} {offset : Nat}

theorem allCut_of_stands {text : List Char} {span : Option Span} (stands : Stands source offset text)
    (isSpan : span = some ⟨offset, offset + byteSize text⟩) : AllCut source span.toList := by
  intro found member
  rw [isSpan] at member
  obtain rfl := List.mem_singleton.mp member
  exact stands.cuts

theorem IsSingle.allCut {text : List Char} {statement : Statement}
    (isSingle : IsSingle offset text statement) (stands : Stands source offset text) :
    AllCut source statement.ownSpans := by
  cases isSingle with
  | mustache isMustache => exact readsCut_mustache.allCut isMustache.takes stands
  | curlyComment span => exact allCut_of_stands stands span
  | comment span => exact allCut_of_stands stands span
  | element span startSpan endSpan alone start =>
    obtain ⟨start, takes, attributes, modifiers⟩ := start
    have cuts := readsCut_elementStart.allCut takes stands
    simp only [StartTag.spans, allCut_append] at cuts
    simp only [Statement.ownSpans, ElementTags.spans, attributes, modifiers, endSpan, allCut_append]
    exact ⟨⟨⟨cuts, allCut_of_stands stands span⟩, allCut_of_stands stands startSpan⟩, allCut_nil⟩

/-- The `else` tag of a block stands behind its program. -/
theorem Spelling.allCut_elseSpan {next : Option Char} {text : List Char} {tags : BlockTags}
    {others : Option Program} (spelling : Spelling next offset text (.inverse tags others))
    (stands : Stands source offset text) : AllCut source tags.elseSpan.toList := by
  cases spelling with
  | noInverse elseTrim elseSpan =>
    rw [elseSpan]
    exact allCut_nil
  | elseBody starts elseSpan content => exact allCut_of_stands stands.left elseSpan
  | elseBlock noElseTrim noElseSpan =>
    rw [noElseSpan]
    exact allCut_nil

/-- The spans of a node that was read cut the source. -/
theorem ReadFrom.allCut {node : Node} (readFrom : ReadFrom source node) :
    AllCut source node.statement.ownSpans := by
  cases readFrom with
  | own stands span spelling =>
    cases spelling with
    | text nonempty isRun ended more => exact allCut_of_stands stands.left rfl
    | single takes more => exact (single_yields.property takes).allCut stands.left
    | element starts open' content ends more =>
      have cuts := readsCut_elementStart.allCut starts stands.left.left.left
      simp only [StartTag.spans, allCut_append] at cuts
      simp only [Statement.ownSpans, ElementTags.spans, StartTag.closed, allCut_append]
      exact ⟨⟨⟨cuts, allCut_of_stands stands.left rfl⟩, allCut_of_stands stands.left.left.left rfl⟩,
        allCut_of_stands stands.left.right (by simp [Nat.add_assoc])⟩
    | block starts content others ends more =>
      have cuts := readsCut_blockStart.allCut starts stands.left.left.left.left
      have elseSpan := others.allCut_elseSpan stands.left.left.right
      have isOpening := blockStart_yields.property starts
      simp only [Statement.ownSpans, BlockTags.spans, BlockOpening.closed, BlockOpening.tags,
        isOpening.span, allCut_append]
      exact ⟨⟨⟨⟨cuts, allCut_of_stands stands.left rfl⟩,
        allCut_of_stands stands.left.left.left.left rfl⟩, elseSpan⟩,
        allCut_of_stands stands.left.right (by simp [Nat.add_assoc])⟩
  | chained stands span spelling =>
    cases spelling with
    | elseBlock noElseTrim noElseSpan starts content others =>
      have cuts := readsCut_elseOpening.allCut starts stands.left.left
      have elseSpan := others.allCut_elseSpan stands.right
      have isOpening := elseOpening_yields.property starts
      simp only [Statement.ownSpans, BlockTags.spans, BlockOpening.tags, isOpening.span,
        allCut_append]
      exact ⟨⟨⟨⟨cuts, allCut_of_stands stands rfl⟩, allCut_of_stands stands.left.left rfl⟩,
        elseSpan⟩, allCut_nil⟩

end Nodes

end TagMigration.Reader
