/-
What the source shows where a node stands. A path, a number and a literal word are written there as
their field says. A curly tag has a `~` marker right behind its opening braces or right in front of
its closing ones exactly if it is marked so: the reader decides the second of these when it
comes to the closer, and nothing else that can stand in front of a closer ends in a marker.
-/
import TagMigration.Proofs.Reading.Cuts

namespace TagMigration

/-- The source shows the text at the span. -/
def Shows (source : List Char) (span : Option Span) (text : List Char) : Prop :=
  span.bind (slice? source) = some text

/-- A text shows where it stands. -/
theorem Stands.shows {source text : List Char} {offset : Nat} {span : Option Span}
    (stands : Stands source offset text) (isSpan : span = some ⟨offset, offset + byteSize text⟩) :
    Shows source span text := by
  rw [Shows, isSpan]
  exact stands.slice?

/-! ### Expressions -/

/-- A literal is written in the source as it is, unless it is a string. -/
def Literal.Agrees (source : List Char) (span : Option Span) : Literal → Prop
  | .string _ => True
  | .number digits => Shows source span digits.toList
  | .boolean true => Shows source span "true".toList
  | .boolean false => Shows source span "false".toList
  | .null => Shows source span "null".toList
  | .undefined => Shows source span "undefined".toList

mutual

/-- The paths and literals of an expression, at any depth, are written in the source as they are. -/
def Expression.Agrees (source : List Char) : Expression → Prop
  | .path name span => Shows source span name.toList
  | .call call _ => call.Agrees source
  | .literal value span => value.Agrees source span

/-- The paths and literals of a call are written in the source as they are. -/
def Call.Agrees (source : List Char) : Call → Prop
  | ⟨callee, positional, named⟩ =>
    callee.Agrees source ∧ positionalAgree source positional ∧ namedAgree source named

/-- The paths and literals of positional arguments are written in the source as they are. -/
def positionalAgree (source : List Char) : List Expression → Prop
  | [] => True
  | argument :: rest => argument.Agrees source ∧ positionalAgree source rest

/-- The paths and literals of named arguments are written in the source as they are. -/
def namedAgree (source : List Char) : List NamedArgument → Prop
  | [] => True
  | argument :: rest => argument.Agrees source ∧ namedAgree source rest

/-- The paths and literals of the value of a named argument are written in the source as they
are. -/
def NamedArgument.Agrees (source : List Char) : NamedArgument → Prop
  | ⟨_, value, _⟩ => value.Agrees source

end

/-! ### Tags -/

/-- Between the braces the text begins with a `~` marker exactly if it trims what stands before it,
and ends with one exactly if it trims what stands after it. -/
def Braced (opener closer : List Char) (trim : Trim) (text : List Char) : Prop :=
  ∃ inside, text = opener ++ inside ++ closer ∧ (inside.head? = some '~' ↔ trim.before = true) ∧
    (inside.getLast? = some '~' ↔ trim.after = true)

/-- The source shows an inline tag with the braces and the `~` markers that it has. -/
def Mustache.Agrees (source : List Char) (tag : Mustache) : Prop :=
  tag.call.Agrees source ∧ ∃ text, Shows source tag.span text ∧
    (['{', '{', '{'] <+: text ↔ tag.trusting = true) ∧
    Braced (if tag.trusting then '{' :: openBraces else openBraces)
      (if tag.trusting then '}' :: closeBraces else closeBraces) tag.trim text

/-- The source shows a part of a value as it is. -/
def ValuePart.Agrees (source : List Char) : ValuePart → Prop
  | .text run => Shows source run.span run.chars.toList
  | .mustache tag => tag.Agrees source

/-- The source shows the tags in a value as they are. -/
def AttributeValue.Agrees (source : List Char) : AttributeValue → Prop
  | .text _ => True
  | .mustache tag => tag.Agrees source
  | .concat parts _ => ∀ part ∈ parts, part.Agrees source

namespace Reader

/-- Whatever is read from a place in the source has the property. -/
def ReadsTrue {α : Type} (source : List Char) (property : α → Prop)
    (read : Cursor → Except Fault (α × Cursor)) : Prop :=
  ∀ cursor value after, Stands source cursor.offset cursor.rest →
    read cursor = .ok (value, after) → property value

theorem ReadsTrue.takes {α : Type} {source : List Char} {property : α → Prop}
    {read : Cursor → Except Fault (α × Cursor)} (reads : ReadsTrue source property read)
    {offset : Nat} {text : List Char} {value : α} (takes : Takes read offset text value)
    (stands : Stands source offset text) : property value := by
  have success := takes []
  rw [List.append_nil] at success
  exact reads ⟨offset, text⟩ _ _ stands success

/-! ### Reading what is written -/

section Expressions

variable {source : List Char} {nested : Cursor → Except Fault (Expression × Cursor)}

theorem agrees_runExpression {offset : Nat} {run : List Char} (stands : Stands source offset run)
    (rest : List Char) :
    (runExpression run rest (some ⟨offset, offset + byteSize run⟩)).Agrees source := by
  have shown {word : String} (same : String.ofList run = word) :
      Shows source (some ⟨offset, offset + byteSize run⟩) word.toList := by
    rw [← same, String.toList_ofList]
    exact stands.shows rfl
  rw [runExpression]
  split
  · rw [Expression.Agrees]
    exact shown rfl
  · simp only [wordExpression]
    split
    · next same => exact shown same
    · split
      · next same => exact shown same
      · split
        · next same => exact shown same
        · split
          · next same => exact shown same
          · rw [Expression.Agrees]
            exact shown rfl

theorem GivenAs.agrees (cuts : ReadsCut source Expression.spans nested)
    (inside : ReadsTrue source (Expression.Agrees source) nested) {closer : Closer}
    {sawNamed : Bool} {cursor after : Cursor} {given : Arguments}
    (reads : GivenAs nested closer sawNamed cursor given after)
    (stands : Stands source cursor.offset cursor.rest) :
    positionalAgree source given.positional ∧ namedAgree source given.named := by
  induction reads with
  | closed found => exact ⟨trivial, trivial⟩
  | params introduced reads more inductionHypothesis =>
    obtain ⟨reached, -⟩ := readsCut_blockParams.onward reads ((reached_self stands).skipBlanks.skip _)
    exact inductionHypothesis reached.stands
  | @named sawNamed cursor between after key width value given keyed reads more
      inductionHypothesis =>
    have place := ((reached_self stands).skipBlanks.skip width).skipBlanks
    obtain ⟨positional, named⟩ := inductionHypothesis (cuts.onward reads place).1.stands
    exact ⟨positional, inside _ _ _ place.stands reads, named⟩
  | positional reads more inductionHypothesis =>
    have place := (reached_self stands).skipBlanks
    obtain ⟨positional, named⟩ := inductionHypothesis (cuts.onward reads place).1.stands
    exact ⟨⟨inside _ _ _ place.stands reads, positional⟩, named⟩

theorem agrees_callParts (cuts : ReadsCut source Expression.spans nested)
    (inside : ReadsTrue source (Expression.Agrees source) nested) (closer : Closer) (begin : Nat) :
    ReadsTrue source (fun parts => parts.call.Agrees source) (callParts nested closer begin) := by
  intro cursor parts after stands success
  obtain ⟨callee, between, given, readCallee, readGiven, rfl⟩ := callParts_eq_ok success
  have place := (reached_self stands).skipBlanks
  exact ⟨inside _ _ _ place.stands readCallee,
    readGiven.agrees cuts inside (cuts.onward readCallee place).1.stands⟩

theorem agrees_expressionWithin (size : Nat) :
    ReadsTrue source (Expression.Agrees source) (expressionWithin size) := by
  induction size with
  | zero =>
    intro cursor value after stands success
    cases success
  | succ size inductionHypothesis =>
    rintro ⟨offset, text⟩ value after stands success
    cases expressionWithin_readsAs success with
    | call reads unbound =>
      exact agrees_callParts (readsCut_expressionWithin size) inductionHypothesis _ _ _ _ _
        (@Stands.right _ _ ['('] _ stands) reads
    | string isQuote reads =>
      rw [stringLiteral] at reads
      split at reads
      · cases reads
      · cases reads
        exact trivial
    | run nonempty named halts => exact agrees_runExpression stands.left _

theorem agrees_tagCall (closer : Closer) (begin : Nat) :
    ReadsTrue source (fun parts => parts.call.Agrees source) (tagCall closer begin) :=
  agrees_callParts readsCut_expression
    (fun cursor => agrees_expressionWithin cursor.rest.length cursor) closer begin

end Expressions

/-! ### Markers at closers -/

/-- The text does not end in a `~` marker. -/
def Unmarked (text : List Char) : Prop :=
  text.getLast? ≠ some '~'

theorem unmarked_append {front back : List Char} (nonempty : back ≠ []) :
    Unmarked (front ++ back) ↔ Unmarked back := by
  rw [Unmarked, Unmarked, List.getLast?_append_of_ne_nil _ nonempty]

theorem unmarked_of_forall {class? : Char → Bool} (outside : class? '~' = false) {text : List Char}
    (inside : ∀ char ∈ text, class? char = true) : Unmarked text := by
  intro marked
  rw [inside '~' (List.mem_of_getLast? marked)] at outside
  cases outside

theorem Unmarked.append_blanks {front blanks : List Char} (unmarked : Unmarked front)
    (blank : ∀ char ∈ blanks, isBlank char = true) : Unmarked (front ++ blanks) := by
  by_cases empty : blanks = []
  · rwa [empty, List.append_nil]
  · exact (unmarked_append empty).mpr (unmarked_of_forall (by decide) blank)

/-- An unmarked text with a `~` marker or none behind it ends in a marker exactly if it has one. -/
theorem Unmarked.marked {front : List Char} (unmarked : Unmarked front) (present : Bool) :
    (front ++ tilde present).getLast? = some '~' ↔ present = true := by
  cases present with
  | true => simp [tilde]
  | false =>
    rw [tilde, if_neg Bool.false_ne_true, List.append_nil]
    exact iff_of_false unmarked Bool.false_ne_true

/-- In front of `rest` stands a closer, with a `~` marker in front of it exactly if `trim` says so.
Whatever unmarked text stands in front of all this makes no difference. -/
def ClosesMarked (closer : Closer) (text rest : List Char) (trim : Bool) : Prop :=
  ∃ inside, text = inside ++ (closer.chars ++ rest) ∧
    ∀ front, Unmarked front → ((front ++ inside).getLast? = some '~' ↔ trim = true)

theorem ClosesMarked.behind {closer : Closer} {text rest used : List Char} {trim : Bool}
    (closes : ClosesMarked closer text rest trim) (nonempty : used ≠ []) (unmarked : Unmarked used)
    (lead : List Char) : ClosesMarked closer (lead ++ (used ++ text)) rest trim := by
  obtain ⟨inside, rfl, marks⟩ := closes
  refine ⟨lead ++ (used ++ inside), by simp, fun front _ => ?_⟩
  have same : front ++ (lead ++ (used ++ inside)) = front ++ lead ++ used ++ inside := by simp
  rw [same]
  exact marks _ ((unmarked_append nonempty).mpr unmarked)

/-- What the reader takes is not empty and does not end in a `~` marker. -/
def TakesUnmarked {α : Type} (read : Cursor → Except Fault (α × Cursor)) : Prop :=
  ∀ cursor value after, read cursor = .ok (value, after) →
    ∃ used, cursor.rest = used ++ after.rest ∧ used ≠ [] ∧ Unmarked used

theorem takesUnmarked_blockParams : TakesUnmarked blockParams := by
  intro cursor names after success
  rw [blockParams] at success
  split at success
  · cases success
  · next inside found =>
    obtain ⟨tail, equal⟩ := before?_eq_some found
    simp only at success
    split at success
    · cases success
    · cases success
      refine ⟨inside ++ ['|'], ?_, by simp, by simp [Unmarked]⟩
      have length : (inside ++ ['|']).length = inside.length + 1 := by simp
      rw [Cursor.skip, equal, ← length, List.drop_left]

theorem takesUnmarked_expressionWithin (size : Nat) : TakesUnmarked (expressionWithin size) := by
  rintro ⟨offset, text⟩ value after success
  cases expressionWithin_readsAs success with
  | @call size inside parts after reads unbound =>
    obtain ⟨inside, rest, rfl, rfl, -⟩ := callParts_isCall (expressionWithin_rereads size 0) reads
    exact ⟨'(' :: (inside ++ [')']), by simp [Closer.chars], by simp,
      (@unmarked_append ('(' :: inside) _ (by simp)).mpr (by simp [Unmarked])⟩
  | @string size quote inside value after isQuote reads =>
    obtain ⟨inside, rest, rfl, rfl, -⟩ := stringLiteral_takes reads
    refine ⟨quote :: (inside ++ [quote]), by simp, by simp,
      (@unmarked_append (quote :: inside) _ (by simp)).mpr ?_⟩
    rcases isQuote with rfl | rfl <;> simp [Unmarked]
  | run nonempty named halts =>
    exact ⟨_, rfl, nonempty, unmarked_of_forall (by decide) named⟩

theorem GivenAs.closesMarked {nested : Cursor → Except Fault (Expression × Cursor)}
    (inside : TakesUnmarked nested) {closer : Closer} {sawNamed : Bool} {cursor after : Cursor}
    {given : Arguments} (reads : GivenAs nested closer sawNamed cursor given after) :
    ClosesMarked closer cursor.rest after.rest given.trimAfter := by
  have behind (cursor : Cursor) (count : Nat) :
      cursor.rest = cursor.rest.take count ++ (cursor.skip count).rest :=
    (List.take_append_drop count cursor.rest).symm
  induction reads with
  | @closed sawNamed cursor after trim found =>
    obtain ⟨blanks, text, equal, blank, halts⟩ := exists_run isBlank cursor.rest
    have skipped : cursor.skipBlanks = ⟨cursor.offset + byteSize blanks, text⟩ := by
      obtain ⟨offset, rest⟩ := cursor
      subst equal
      exact Cursor.skipBlanks_append offset blank halts
    rw [skipped] at found
    obtain ⟨rest, rfl, rfl, -⟩ := closer?_eq_some found
    refine ⟨blanks ++ tilde trim, by rw [equal]; simp, fun front unmarked => ?_⟩
    rw [← List.append_assoc]
    exact (unmarked.append_blanks blank).marked trim
  | @params sawNamed cursor between after intro names given introduced reads more
      inductionHypothesis =>
    obtain ⟨used, equal, nonempty, unmarked⟩ := takesUnmarked_blockParams _ _ _ reads
    rw [behind cursor, behind (cursor.skip _) intro, ← List.append_assoc]
    rw [Cursor.skipBlanks] at equal
    rw [equal]
    exact inductionHypothesis.behind nonempty unmarked _
  | @named sawNamed cursor between after key width value given keyed reads more
      inductionHypothesis =>
    obtain ⟨used, equal, nonempty, unmarked⟩ := inside _ _ _ reads
    rw [behind cursor, behind (cursor.skip _) width, behind ((cursor.skip _).skip width),
      ← List.append_assoc, ← List.append_assoc]
    rw [Cursor.skipBlanks, Cursor.skipBlanks] at equal
    rw [equal]
    exact inductionHypothesis.behind nonempty unmarked _
  | @positional cursor between after value given reads more inductionHypothesis =>
    obtain ⟨used, equal, nonempty, unmarked⟩ := inside _ _ _ reads
    rw [behind cursor]
    rw [Cursor.skipBlanks] at equal
    rw [equal]
    exact inductionHypothesis.behind nonempty unmarked _

/-- The call of a tag is read up to its closer, and in front of that stands a `~` marker exactly if
the call says so. -/
theorem tagCall_marked {closer : Closer} {begin offset : Nat} {text : List Char}
    {parts : CallParts} {after : Cursor}
    (success : tagCall closer begin ⟨offset, text⟩ = .ok (parts, after)) :
    ∃ inside rest, inside ≠ [] ∧ text = inside ++ (closer.chars ++ rest) ∧
      after = ⟨offset + byteSize inside + byteSize closer.chars, rest⟩ ∧
      (inside.getLast? = some '~' ↔ parts.trimAfter = true) := by
  obtain ⟨inside, rest, equal, rfl, isCall⟩ := tagCall_isCall success
  refine ⟨inside, rest, isCall.nonempty, equal, rfl, ?_⟩
  obtain ⟨callee, between, given, readCallee, readGiven, rfl⟩ := callParts_eq_ok success
  have unmarked : TakesUnmarked expression := fun cursor =>
    takesUnmarked_expressionWithin cursor.rest.length cursor
  obtain ⟨used, behind, nonempty, unmarkedUsed⟩ := unmarked _ _ _ readCallee
  have lead : text = text.take (text.takeWhile isBlank).length ++ (used ++ between.rest) := by
    rw [← behind]
    exact (List.take_append_drop _ text).symm
  obtain ⟨again, equalAgain, marks⟩ := (readGiven.closesMarked unmarked).behind nonempty unmarkedUsed
    (text.take (text.takeWhile isBlank).length)
  rw [← lead] at equalAgain
  obtain rfl : inside = again := List.append_cancel_right (equal.symm.trans equalAgain)
  exact marks [] (by simp [Unmarked])

/-! ### Inline tags -/

/-- A curly tag whose inside is not empty has its markers where its `~` markers stand. -/
theorem braced_tilde {opener closer word inside : List Char} {present trimAfter : Bool}
    (nonempty : inside ≠ []) (other : present = false → (word ++ inside).head? ≠ some '~')
    (marks : inside.getLast? = some '~' ↔ trimAfter = true) :
    Braced opener closer ⟨present, trimAfter⟩
      (opener ++ (tilde present ++ (word ++ inside)) ++ closer) := by
  refine ⟨tilde present ++ (word ++ inside), rfl, ?_, ?_⟩
  · cases present with
    | true => simp [tilde]
    | false => exact iff_of_false (other rfl) Bool.false_ne_true
  · rw [← List.append_assoc, List.getLast?_append_of_ne_nil _ nonempty]
    exact marks

section Tags

variable {source : List Char}

/-- The braces of an inline tag and what stands behind them. -/
theorem exists_inlineOpener {text : List Char} {trusting : Bool} (braces : openBraces <+: text)
    (third : ['{', '{', '{'].isPrefixOf text = trusting) :
    ∃ opener tail, opener = (if trusting then '{' :: openBraces else openBraces) ∧
      text = opener ++ tail ∧ opener.length = if trusting then 3 else 2 := by
  cases trusting with
  | true =>
    obtain ⟨tail, rfl⟩ := List.isPrefixOf_iff_prefix.mp third
    exact ⟨_, tail, rfl, rfl, rfl⟩
  | false =>
    obtain ⟨tail, rfl⟩ := braces
    exact ⟨_, tail, rfl, rfl, rfl⟩

theorem agrees_mustache {cursor after : Cursor} {tag : Mustache}
    (stands : Stands source cursor.offset cursor.rest) (braces : openBraces <+: cursor.rest)
    (success : mustache cursor = .ok (tag, after)) : tag.Agrees source := by
  obtain ⟨offset, text⟩ := cursor
  obtain ⟨isTrusting, isBefore, span, parts, readParts, call, isAfter⟩ := mustache_eq_ok success
  obtain ⟨opener, tail, isOpener, equal, width⟩ := exists_inlineOpener braces isTrusting.symm
  obtain ⟨present, tail, rfl, other⟩ := Cursor.exists_tilde tail
  simp only at equal stands
  subst equal
  rw [Cursor.skip_append_of_length _ width, Cursor.eatTilde_tilde _ other] at isBefore readParts
  generalize isCloser : inlineCloser tag.trusting = closer at readParts
  obtain ⟨inside, rest, nonempty, rfl, rfl, marks⟩ := tagCall_marked readParts
  have agrees := agrees_tagCall _ _ _ _ _ stands.right.right readParts
  have whole : opener ++ (tilde present ++ (inside ++ (closer.chars ++ rest))) =
      opener ++ (tilde present ++ ([] ++ inside)) ++ closer.chars ++ rest := by
    simp
  rw [whole] at stands isTrusting
  refine ⟨call ▸ agrees, _, stands.left.shows ?_, ?_, ?_⟩
  · rw [span, Cursor.spanTo]
    simp only [List.nil_append, byteSize_append, Nat.add_assoc]
  · have fits : ['{', '{', '{'].length ≤
        (opener ++ (tilde present ++ ([] ++ inside)) ++ closer.chars).length := by
      have long := List.length_pos_iff.mpr nonempty
      simp only [List.length_append, width, List.length_cons, List.length_nil]
      split <;> omega
    rw [isTrusting, Cursor.startsWith, isPrefixOf_append _ _ fits, List.isPrefixOf_iff_prefix]
  · have chars : closer.chars = if tag.trusting then '}' :: closeBraces else closeBraces := by
      rw [← isCloser]
      cases tag.trusting <;> rfl
    have isTrim : tag.trim = ⟨present, parts.trimAfter⟩ := congr (congrArg Trim.mk isBefore) isAfter
    rw [chars, isOpener, isTrim]
    exact braced_tilde nonempty (by rwa [List.nil_append, ← head?_append_left nonempty]) marks

/-! ### Values and start tags -/

/-- Behind the text of a quoted value stands its quote or a curly tag, if anything does. -/
theorem valueText_stops {quote : Char} {front rest : List Char}
    (stops : valueText quote (front ++ rest) = front) :
    rest = [] ∨ rest.head? = some quote ∨ openBraces <+: rest := by
  induction front with
  | nil =>
    cases rest with
    | nil => exact .inl rfl
    | cons char rest =>
      rw [List.nil_append, valueText] at stops
      split at stops
      · next ends =>
        rcases ends with rfl | braces
        · exact .inr (.inl rfl)
        · exact .inr (.inr (List.isPrefixOf_iff_prefix.mp braces))
      · cases stops
  | cons char front inductionHypothesis =>
    rw [List.cons_append, valueText] at stops
    split at stops
    · cases stops
    · exact inductionHypothesis (List.cons.inj stops).2

theorem agrees_textPart {offset : Nat} {front : List Char} (stands : Stands source offset front) :
    ∀ part ∈ textPart front ⟨offset, offset + byteSize front⟩, part.Agrees source := by
  intro part member
  rw [textPart] at member
  split at member
  · cases member
  · obtain rfl := List.mem_singleton.mp member
    rw [ValuePart.Agrees, String.toList_ofList]
    exact stands.shows rfl

theorem agrees_valueParts (quote : Char) (begin size : Nat) :
    ReadsTrue source (fun parts => ∀ part ∈ parts, part.Agrees source)
      (valueParts quote begin size) := by
  induction size with
  | zero =>
    intro cursor parts after stands success
    cases success
  | succ size inductionHypothesis =>
    rintro ⟨offset, text⟩ parts after stands success
    obtain ⟨front, rest, rfl, run, ⟨tail, -, rfl, -⟩ |
      ⟨unquoted, tag, afterTag, more, readTag, readMore, rfl⟩⟩ := valueParts_cases success
    · exact agrees_textPart stands.left
    · have braces : openBraces <+: rest := by
        rcases valueText_stops run with rfl | quoted | braces
        · cases readTag
        · exact absurd quoted unquoted
        · exact braces
      obtain ⟨reached, -⟩ := readsCut_mustache _ _ _ stands.right readTag
      refine List.forall_mem_append.mpr
        ⟨agrees_textPart stands.left, List.forall_mem_cons.mpr ⟨?_, ?_⟩⟩
      · exact agrees_mustache stands.right braces readTag
      · exact inductionHypothesis _ _ _ reached.stands readMore

theorem agrees_quotedValue (quote : Char) :
    ReadsTrue source (AttributeValue.Agrees source) (quotedValue quote) := by
  intro cursor value after stands success
  rw [quotedValue] at success
  obtain ⟨⟨parts, last⟩, readParts, success⟩ := bind_eq_ok success
  simp only at success
  split at success
  · cases success
    trivial
  · cases success
    exact agrees_valueParts _ _ _ _ _ _ (stands_skip stands 1) readParts

theorem agrees_attributeValue (name : String) :
    ReadsTrue source (AttributeValue.Agrees source) (attributeValue name) := by
  intro cursor value after stands success
  unfold attributeValue at success
  split at success
  · exact agrees_quotedValue _ _ _ _ stands success
  · exact agrees_quotedValue _ _ _ _ stands success
  · next tail equal =>
    obtain ⟨⟨tag, last⟩, readTag, success⟩ := bind_eq_ok success
    cases success
    exact agrees_mustache stands ⟨tail, equal.symm⟩ readTag
  · simp only at success
    split at success
    · cases success
    · cases success
      trivial

theorem agrees_attr (tag : String) :
    ReadsTrue source (fun found => found.value.Agrees source) (attr tag) := by
  intro cursor found after stands success
  obtain ⟨-, -, ⟨noValue, -⟩ | readValue⟩ := attr_eq_ok success
  · rw [noValue]
    trivial
  · exact agrees_attributeValue _ _ _ _
      (((reached_self stands).skip _).skipBlanks.skip _).skipBlanks.stands readValue

/-- The source shows the pieces of a start tag as they are. -/
def StartTag.Agrees (source : List Char) (start : StartTag) : Prop :=
  (∀ attr ∈ start.attributes, attr.value.Agrees source) ∧
    ∀ modifier ∈ start.modifiers, modifier.call.Agrees source

theorem agrees_startTag (tag : String) (begin size : Nat) :
    ReadsTrue source (StartTag.Agrees source) (startTag tag begin size) := by
  induction size with
  | zero =>
    intro cursor start after stands success
    cases success
  | succ size inductionHypothesis =>
    rintro ⟨offset, text⟩ start after stands success
    obtain ⟨blanks, text, rfl, blank, halts⟩ := exists_run isBlank text
    rw [startTag_blank size blank halts] at success
    replace stands := stands.right
    generalize offset + byteSize blanks = offset at success stands
    cases startTag_step halts success with
    | finish slash rest => exact ⟨List.forall_mem_nil _, List.forall_mem_nil _⟩
    | comment takes more => exact inductionHypothesis _ _ _ stands.right.right more
    | modifier kind other isCall more =>
      obtain ⟨attributes, modifiers⟩ := inductionHypothesis _ _ _ stands.right.right.right more
      exact ⟨attributes, List.forall_mem_cons.mpr
        ⟨agrees_tagCall _ _ _ _ _ stands.right (isCall.tag offset _), modifiers⟩⟩
    | params intro takes more =>
      have agrees := inductionHypothesis _ _ _ stands.right.right more
      exact agrees
    | attr nonempty haltsUsed kind reads again more =>
      obtain ⟨attributes, modifiers⟩ := inductionHypothesis _ _ _ stands.right more
      exact ⟨List.forall_mem_cons.mpr ⟨agrees_attr tag _ _ _ stands reads, attributes⟩, modifiers⟩

end Tags

end Reader

end TagMigration
