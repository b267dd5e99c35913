/-
A statement without content is an inline tag, a comment or an element without an end tag. It is read
up to its own end and no further, and its span is the text it was read from. What begins with two
braces is told apart by the mark behind them.
-/
import TagMigration.Proofs.Reading.BlockTag
import TagMigration.Proofs.Reading.ElementTag

namespace TagMigration.Reader

/-! ### Statements without content -/

/-- What is known of a statement without content from its text. -/
inductive IsSingle (offset : Nat) (text : List Char) : Statement → Prop where
  | mustache {tag : Mustache} (isMustache : IsMustache offset text tag)
    (braces : openBraces <+: text) : IsSingle offset text (.mustache tag)
  | curlyComment {remark : CurlyComment}
    (span : remark.span = some ⟨offset, offset + byteSize text⟩) :
    IsSingle offset text (.curlyComment remark)
  | comment {remark : Comment} (span : remark.span = some ⟨offset, offset + byteSize text⟩)
    (whole : text = ['<', '!', '-', '-'] ++ (remark.value.toList ++ ['-', '-', '>'])) :
    IsSingle offset text (.comment remark)
  | element {tags : ElementTags} (span : tags.span = some ⟨offset, offset + byteSize text⟩)
    (startSpan : tags.startSpan = some ⟨offset, offset + byteSize text⟩)
    (endSpan : tags.endSpan = none) (alone : tags.selfClosing || isVoidTag tags.tag)
    (start : ∃ start, Takes elementStart offset text (tags.tag, start) ∧
      tags.attributes = start.attributes ∧ tags.modifiers = start.modifiers) :
    IsSingle offset text (.element tags [])

/-- The character that tells the kinds of curly tags apart: the one behind the braces and the `~`
marker. -/
def tagMark (text : List Char) : Option Char :=
  if text[2]? = some '~' then text[3]? else text[2]?

theorem tagMark_tilde {present : Bool} {rest : List Char}
    (other : present = false → rest.head? ≠ some '~') :
    tagMark ('{' :: '{' :: (tilde present ++ rest)) = rest.head? := by
  cases present with
  | true => cases rest <;> rfl
  | false =>
    have place : ('{' :: '{' :: (tilde false ++ rest))[2]? = rest.head? := by cases rest <;> rfl
    rw [tagMark, place, if_neg (other rfl)]

/-- The curly tag is an inline tag, by its first four characters. -/
def IsInline (text : List Char) : Prop :=
  (text[2]? = some '{' → text[3]? ≠ some '{') ∧
    ∀ mark ∈ ['!', '#', '>', '*', '^', '&'], tagMark text ≠ some mark

theorem IsInline.again {front back : List Char} (isInline : IsInline (front ++ back))
    (long : 4 ≤ front.length) (other : List Char) : IsInline (front ++ other) := by
  have second (rest : List Char) : (front ++ rest)[2]? = front[2]? :=
    List.getElem?_append_left (by omega)
  have third (rest : List Char) : (front ++ rest)[3]? = front[3]? :=
    List.getElem?_append_left (by omega)
  simp only [IsInline, tagMark, second, third] at isInline ⊢
  exact isInline

/-- What stands at two braces: an inline tag, a comment, a block, or a construct that is refused. -/
theorem curly_cases (nested : ContentReader) (offset : Nat) (tail : List Char) :
    (IsInline ('{' :: '{' :: tail) ∧ curly nested ⟨offset, '{' :: '{' :: tail⟩ = (do
      let (tag, after) ← mustache ⟨offset, '{' :: '{' :: tail⟩
      .ok (.mustache tag, after))) ∨
    (∃ present rest, tail = tilde present ++ '!' :: rest ∧
      curly nested ⟨offset, '{' :: '{' :: tail⟩ = (do
        let (remark, after) ← curlyComment ⟨offset, '{' :: '{' :: tail⟩
          ⟨offset + byteSize ('{' :: '{' :: tilde present), '!' :: rest⟩
        .ok (.curlyComment remark, after))) ∨
    (∃ present rest, tail = tilde present ++ '#' :: rest ∧
      rest.head? ≠ some '>' ∧ rest.head? ≠ some '*' ∧
      curly nested ⟨offset, '{' :: '{' :: tail⟩ =
        block nested ⟨offset, '{' :: '{' :: tail⟩ present
          ⟨offset + byteSize ('{' :: '{' :: tilde present) + byteSize ['#'], rest⟩) ∨
    ∃ cause, ¬ IsInline ('{' :: '{' :: tail) ∧
      curly nested ⟨offset, '{' :: '{' :: tail⟩ = fault offset cause := by
  unfold curly
  split
  · next quadruple =>
    obtain ⟨tail, equal⟩ := List.isPrefixOf_iff_prefix.mp quadruple
    cases equal
    exact .inr (.inr (.inr ⟨_, fun isInline => isInline.1 rfl rfl, rfl⟩))
  next quadruple =>
  split
  · next triple =>
    obtain ⟨tail, equal⟩ := List.isPrefixOf_iff_prefix.mp triple
    cases equal
    refine .inl ⟨⟨fun _ fourth => ?_, ?_⟩, rfl⟩
    · cases tail with
      | nil => cases fourth
      | cons first tail =>
        cases fourth
        exact quadruple rfl
    · intro mark member marked
      obtain rfl : '{' = mark := Option.some.inj marked
      simp at member
  next double =>
  obtain ⟨present, tail, rfl, other⟩ := Cursor.exists_tilde tail
  have refused (mark : Char) (isMark : mark ∈ ['!', '#', '>', '*', '^', '&'])
      (starts : tail.head? = some mark) :
      ¬ IsInline ('{' :: '{' :: (tilde present ++ tail)) := fun isInline =>
    isInline.2 mark isMark ((tagMark_tilde other).trans starts)
  simp only [skip_braces other]
  split
  · next rest => exact .inr (.inl ⟨present, rest, rfl, rfl⟩)
  · exact .inr (.inr (.inr ⟨_, refused '#' (by decide) rfl, rfl⟩))
  · exact .inr (.inr (.inr ⟨_, refused '#' (by decide) rfl, rfl⟩))
  · next rest notPartial notDecorator =>
    refine .inr (.inr (.inl ⟨present, rest, rfl, fun starts => ?_, fun starts => ?_, ?_⟩))
    · obtain ⟨rest, rfl⟩ := List.head?_eq_some_iff.mp starts
      exact notPartial rest rfl
    · obtain ⟨rest, rfl⟩ := List.head?_eq_some_iff.mp starts
      exact notDecorator rest rfl
    · exact congrArg (block nested _ present) (Cursor.skip_append _ ['#'] rest)
  · exact .inr (.inr (.inr ⟨_, refused '>' (by decide) rfl, rfl⟩))
  · exact .inr (.inr (.inr ⟨_, refused '*' (by decide) rfl, rfl⟩))
  · exact .inr (.inr (.inr ⟨_, refused '^' (by decide) rfl, rfl⟩))
  · exact .inr (.inr (.inr ⟨_, refused '&' (by decide) rfl, rfl⟩))
  · next noRemark noPartial noDecorator noBlock noPartialTag noDecoratorTag noInverse noUnescaped =>
    have absent (mark : Char) (differs : ∀ rest, tail = mark :: rest → False) :
        tail.head? ≠ some mark := fun starts => by
      obtain ⟨rest, equal⟩ := List.head?_eq_some_iff.mp starts
      exact differs rest equal
    refine .inl ⟨⟨fun third => ?_, fun mark isMark => ?_⟩, rfl⟩
    · cases present with
      | true => cases third
      | false =>
        cases tail with
        | nil => cases third
        | cons first tail =>
          cases third
          exact absurd rfl double
    · rw [tagMark_tilde other]
      simp only [List.mem_cons, List.not_mem_nil, or_false] at isMark
      rcases isMark with rfl | rfl | rfl | rfl | rfl | rfl
      · exact absent _ noRemark
      · exact absent _ noBlock
      · exact absent _ noPartialTag
      · exact absent _ noDecoratorTag
      · exact absent _ noInverse
      · exact absent _ noUnescaped

theorem curly_of_isInline (nested : ContentReader) (offset : Nat) {tail : List Char}
    (isInline : IsInline ('{' :: '{' :: tail)) :
    curly nested ⟨offset, '{' :: '{' :: tail⟩ = (do
      let (tag, after) ← mustache ⟨offset, '{' :: '{' :: tail⟩
      .ok (.mustache tag, after)) := by
  have marked (mark : Char) (isMark : mark ∈ ['!', '#', '>', '*', '^', '&']) (present : Bool)
      (rest : List Char) : tail ≠ tilde present ++ mark :: rest := by
    rintro rfl
    have differs : mark ≠ '~' := by
      rintro rfl
      exact absurd isMark (by decide)
    exact isInline.2 mark isMark (tagMark_tilde fun _ => by simpa using differs)
  rcases curly_cases nested offset tail with ⟨-, equal⟩ | ⟨present, rest, equal, -⟩ |
    ⟨present, rest, equal, -⟩ | ⟨cause, notInline, -⟩
  · exact equal
  · exact absurd equal (marked '!' (by decide) present rest)
  · exact absurd equal (marked '#' (by decide) present rest)
  · exact absurd isInline notInline

theorem curly_remark (nested : ContentReader) (offset : Nat) (present : Bool) (rest : List Char) :
    curly nested ⟨offset, '{' :: '{' :: (tilde present ++ '!' :: rest)⟩ = (do
      let (remark, after) ← curlyComment ⟨offset, []⟩
        ⟨offset + byteSize ('{' :: '{' :: tilde present), '!' :: rest⟩
      .ok (.curlyComment remark, after)) := by
  have double : (⟨offset, '{' :: '{' :: (tilde present ++ '!' :: rest)⟩ : Cursor).startsWith
      ['{', '{', '{'] = false := by
    cases present <;> rfl
  have single : (⟨offset, '{' :: '{' :: (tilde present ++ '!' :: rest)⟩ : Cursor).startsWith
      ['{', '{', '{', '{'] = false := by
    cases present <;> rfl
  have skipped : ((⟨offset, '{' :: '{' :: (tilde present ++ '!' :: rest)⟩ : Cursor).skip 2).eatTilde =
      (present, ⟨offset + byteSize ('{' :: '{' :: tilde present), '!' :: rest⟩) :=
    skip_braces fun _ => by simp
  simp only [curly, double, single, skipped]
  rfl

theorem curly_hash (nested : ContentReader) (offset : Nat) (present : Bool) {rest : List Char}
    (plain : rest.head? ≠ some '>' ∧ rest.head? ≠ some '*') :
    curly nested ⟨offset, '{' :: '{' :: (tilde present ++ '#' :: rest)⟩ =
      block nested ⟨offset, '{' :: '{' :: (tilde present ++ '#' :: rest)⟩ present
        ⟨offset + byteSize ('{' :: '{' :: tilde present) + byteSize ['#'], rest⟩ := by
  have double : (⟨offset, '{' :: '{' :: (tilde present ++ '#' :: rest)⟩ : Cursor).startsWith
      ['{', '{', '{'] = false := by
    cases present <;> rfl
  have single : (⟨offset, '{' :: '{' :: (tilde present ++ '#' :: rest)⟩ : Cursor).startsWith
      ['{', '{', '{', '{'] = false := by
    cases present <;> rfl
  have skipped : ((⟨offset, '{' :: '{' :: (tilde present ++ '#' :: rest)⟩ : Cursor).skip 2).eatTilde =
      (present, ⟨offset + byteSize ('{' :: '{' :: tilde present), '#' :: rest⟩) :=
    skip_braces fun _ => by simp
  have behind : (⟨offset + byteSize ('{' :: '{' :: tilde present), '#' :: rest⟩ : Cursor).skip 1 =
      ⟨offset + byteSize ('{' :: '{' :: tilde present) + byteSize ['#'], rest⟩ :=
    Cursor.skip_append _ ['#'] rest
  simp only [curly, double, single, skipped, behind, Bool.false_eq_true, if_false]
  split
  · next equal => cases equal
  · next equal => cases equal; exact absurd rfl plain.1
  · next equal => cases equal; exact absurd rfl plain.2
  · rfl
  · next equal => cases equal
  · next equal => cases equal
  · next equal => cases equal
  · next equal => cases equal
  · next others _ _ _ _ => exact absurd rfl (others rest)

/-- A reader of content that reads nothing finds no block. -/
theorem block_refuse {begin cursor after : Cursor} {trimBefore : Bool} {found : Statement} :
    block refuse begin trimBefore cursor ≠ .ok (found, after) := by
  intro success
  obtain ⟨⟨opening, last⟩, -, success⟩ := bind_eq_ok success
  obtain ⟨⟨content, close⟩, readContent, -⟩ := bind_eq_ok success
  cases size : last.rest.length with
  | zero => rw [size] at readContent; cases readContent
  | succ more => rw [size] at readContent; cases readContent

theorem single_curly {offset : Nat} {tail : List Char} (goesOn : stop? ('{' :: '{' :: tail) = none) :
    single ⟨offset, '{' :: '{' :: tail⟩ = curly refuse ⟨offset, '{' :: '{' :: tail⟩ := by
  have tests : (stop? ('{' :: '{' :: tail)).isNone ∧ endsText ('{' :: '{' :: tail) :=
    ⟨by rw [goesOn]; rfl, rfl⟩
  rw [single, if_pos tests]
  rfl

/-- An element is its start tag and, unless it stands alone, content and an end tag. -/
theorem element_eq (nested : ContentReader) {cursor : Cursor}
    (starts : startsElement cursor.rest = true) :
    element nested cursor = (do
      let ((tag, start), after) ← elementStart cursor
      if start.selfClosing || isVoidTag tag then
        .ok (.element ⟨tag, start.attributes, start.modifiers, start.params, start.selfClosing,
          some (cursor.spanTo after), some (cursor.spanTo after), none⟩ [], after)
      else
        let ((children, stop), close) ← nested after
        if stop ≠ .closingTag then fault cursor.offset (.unclosedElement tag)
        else
          let (_, last) ← endTag tag close
          .ok (.element ⟨tag, start.attributes, start.modifiers, start.params, start.selfClosing,
            some (cursor.spanTo last), some (cursor.spanTo after), some (close.spanTo last)⟩
            children, last)) := by
  simp only [element, elementStart, if_pos starts]
  cases tagName? (cursor.skip 1).rest with
  | none => rfl
  | some run =>
    simp only
    cases startTag (String.ofList run) cursor.offset ((cursor.skip 1).skip run.length).rest.length
        ((cursor.skip 1).skip run.length) with
    | error fault => rfl
    | ok found => rfl

/-- A text of a start tag begins an element, and nothing that is told apart before elements. -/
theorem startsElement_of_takes {offset : Nat} {text : List Char} {found : String × StartTag}
    (takes : Takes elementStart offset text found) (rest : List Char) :
    startsElement (text ++ rest) = true := by
  have success := takes rest
  unfold elementStart at success
  split at success
  · next starts => exact starts
  · cases success

theorem statement_element (nested : ContentReader) {cursor : Cursor}
    (starts : startsElement cursor.rest = true) :
    statement nested cursor = element nested cursor := by
  obtain ⟨offset, text⟩ := cursor
  obtain ⟨char, rest, rfl, isStart⟩ := startsElement_eq_true starts
  have noComment : ['<', '!', '-', '-'].isPrefixOf ('<' :: char :: rest) = false := by
    have differs : ¬ '!' = char := by
      rintro rfl
      exact absurd isStart (by decide)
    simp [List.isPrefixOf, differs]
  rw [statement, if_neg (by exact Bool.false_ne_true),
    if_neg (by rw [Cursor.startsWith, noComment]; exact Bool.false_ne_true), if_pos starts]

theorem stop?_element {text : List Char} (starts : startsElement text = true) :
    stop? text = none := by
  obtain ⟨char, rest, rfl, isStart⟩ := startsElement_eq_true starts
  have differs : char ≠ '/' := by
    rintro rfl
    exact absurd isStart (by decide)
  simp [stop?, differs]

theorem single_element {offset : Nat} {text : List Char} (starts : startsElement text = true) :
    single ⟨offset, text⟩ = element refuse ⟨offset, text⟩ := by
  have tests : (stop? text).isNone ∧ endsText text :=
    ⟨by rw [stop?_element starts]; rfl, by rw [endsText, starts, Bool.or_true]⟩
  rw [single, if_pos tests, statement_element refuse starts]

theorem single_comment {offset : Nat} {text : List Char}
    (starts : ['<', '!', '-', '-'].isPrefixOf text = true) :
    single ⟨offset, text⟩ = (do
      let (remark, after) ← comment ⟨offset, text⟩
      .ok (.comment remark, after)) := by
  obtain ⟨rest, rfl⟩ := List.isPrefixOf_iff_prefix.mp starts
  rfl

/-- What can stand at a place where neither content stops nor text goes on. -/
theorem single_starts {offset : Nat} {text : List Char} {found : Statement} {after : Cursor}
    (success : single ⟨offset, text⟩ = .ok (found, after)) :
    (∃ tail, text = '{' :: '{' :: tail ∧ stop? text = none) ∨
      ['<', '!', '-', '-'].isPrefixOf text = true ∨ startsElement text = true := by
  unfold single at success
  split at success
  · next tests =>
    obtain ⟨goesOn, ends⟩ := tests
    rw [Option.isNone_iff_eq_none] at goesOn
    simp only [endsText, Bool.or_eq_true] at ends
    rcases ends with ((curly | comment) | closing) | element
    · obtain ⟨tail, rfl⟩ := List.isPrefixOf_iff_prefix.mp curly
      exact .inl ⟨tail, rfl, goesOn⟩
    · exact .inr (.inl comment)
    · obtain ⟨tail, rfl⟩ := List.isPrefixOf_iff_prefix.mp closing
      cases goesOn
    · exact .inr (.inr element)
  · cases success

theorem IsMustache.exists_inside {offset : Nat} {text tail rest : List Char} {tag : Mustache}
    (isMustache : IsMustache offset text tag) (equal : '{' :: '{' :: tail = text ++ rest) :
    ∃ inside, text = '{' :: '{' :: inside ++ ['}', '}'] := by
  obtain ⟨front, rfl, long⟩ := isMustache.ends
  match front, long with
  | first :: second :: inside, _ =>
    simp only [List.cons_append, List.cons.injEq] at equal
    obtain ⟨rfl, rfl, -⟩ := equal
    exact ⟨inside, rfl⟩

/-- A start tag that needs no end tag is a statement. -/
theorem takes_alone {offset : Nat} {text : List Char} {tag : String} {start : StartTag}
    (takes : Takes elementStart offset text (tag, start))
    (alone : (start.selfClosing || isVoidTag tag) = true) :
    Takes single offset text (.element ⟨tag, start.attributes, start.modifiers, start.params,
      start.selfClosing, some ⟨offset, offset + byteSize text⟩,
      some ⟨offset, offset + byteSize text⟩, none⟩ []) := by
  intro rest
  have starts := startsElement_of_takes takes rest
  rw [single_element starts, element_eq refuse starts, takes]
  exact if_pos alone

section Kinds

variable {offset : Nat} {text : List Char} {found : Statement} {after : Cursor}

/-- What an inline tag is read from. -/
theorem single_of_mustache {tail : List Char} {tag : Mustache}
    (goesOn : stop? ('{' :: '{' :: tail) = none) (isInline : IsInline ('{' :: '{' :: tail))
    (read : mustache ⟨offset, '{' :: '{' :: tail⟩ = .ok (tag, after)) :
    ∃ used rest, '{' :: '{' :: tail = used ++ rest ∧ after = ⟨offset + byteSize used, rest⟩ ∧
      Takes single offset used (.mustache tag) ∧ IsSingle offset used (.mustache tag) := by
  obtain ⟨used, rest, textEq, rfl, isMustache⟩ := mustache_isMustache read
  obtain ⟨inside, rfl⟩ := isMustache.exists_inside textEq
  refine ⟨'{' :: '{' :: inside ++ ['}', '}'], rest, textEq, rfl, fun other => ?_,
    .mustache isMustache ⟨inside ++ ['}', '}'], rfl⟩⟩
  rw [textEq] at goesOn isInline
  have isInlineHere := isInline.again (Nat.le_of_succ_le isMustache.long) other
  rw [stop?_braces inside rest other] at goesOn
  have takes := isMustache.takes other
  simp only [List.cons_append] at goesOn isInlineHere takes ⊢
  rw [single_curly goesOn, curly_of_isInline refuse offset isInlineHere, takes]
  rfl

/-- What a comment in braces is read from. -/
theorem single_of_remark {present : Bool} {inside : List Char} {remark : CurlyComment}
    (goesOn : stop? ('{' :: '{' :: (tilde present ++ '!' :: inside)) = none)
    (read : curlyComment ⟨offset, '{' :: '{' :: (tilde present ++ '!' :: inside)⟩
      ⟨offset + byteSize ('{' :: '{' :: tilde present), '!' :: inside⟩ = .ok (remark, after)) :
    ∃ used rest, '{' :: '{' :: (tilde present ++ '!' :: inside) = used ++ rest ∧
      after = ⟨offset + byteSize used, rest⟩ ∧
      Takes single offset used (.curlyComment remark) ∧
      IsSingle offset used (.curlyComment remark) := by
  obtain ⟨used, rest, insideEq, rfl, span, takes⟩ := curlyComment_takes rfl read
  have upTo (rest : List Char) : '{' :: '{' :: (tilde present ++ '!' :: used) ++ ['}', '}'] ++ rest =
      '{' :: '{' :: (tilde present ++ ('!' :: used ++ ['}', '}'] ++ rest)) := by
    simp
  have place : offset + byteSize ('{' :: '{' :: tilde present) +
      byteSize ('!' :: used ++ ['}', '}']) =
        offset + byteSize ('{' :: '{' :: (tilde present ++ '!' :: used) ++ ['}', '}']) := by
    simp only [byteSize_append, byteSize_cons]
    omega
  rw [place] at span ⊢
  refine ⟨'{' :: '{' :: (tilde present ++ '!' :: used) ++ ['}', '}'], rest,
    by rw [upTo, insideEq], rfl, fun other => ?_, .curlyComment span⟩
  rw [insideEq, ← upTo rest, stop?_braces _ rest other, upTo] at goesOn
  have reads := takes other
  rw [place] at reads
  rw [upTo, single_curly goesOn]
  show curly refuse ⟨offset, '{' :: '{' :: (tilde present ++ '!' :: (used ++ ['}', '}'] ++ other))⟩ = _
  rw [curly_remark]
  show (curlyComment _ ⟨_, '!' :: used ++ ['}', '}'] ++ other⟩ >>= _) = _
  rw [show curlyComment ⟨offset, []⟩ _ = _ from reads]
  rfl

/-- What a comment of the markup is read from. -/
theorem single_of_comment (starts : ['<', '!', '-', '-'].isPrefixOf text = true)
    (success : single ⟨offset, text⟩ = .ok (found, after)) :
    ∃ used rest, text = used ++ rest ∧ after = ⟨offset + byteSize used, rest⟩ ∧
      Takes single offset used found ∧ IsSingle offset used found := by
  rw [single_comment starts] at success
  obtain ⟨⟨remark, last⟩, read, success⟩ := bind_eq_ok success
  cases success
  obtain ⟨used, rest, rfl, rfl, span, whole, takes⟩ := comment_takesOnly starts read
  refine ⟨used, rest, rfl, rfl, fun other => ?_, .comment span whole⟩
  have fits : ['<', '!', '-', '-'].length ≤ used.length := by
    rw [whole, List.length_append]
    exact Nat.le_add_right _ _
  rw [isPrefixOf_append used rest fits, ← isPrefixOf_append used other fits] at starts
  rw [single_comment starts, takes]
  rfl

/-- What an element without content is read from. -/
theorem single_of_element (starts : startsElement text = true)
    (success : single ⟨offset, text⟩ = .ok (found, after)) :
    ∃ used rest, text = used ++ rest ∧ after = ⟨offset + byteSize used, rest⟩ ∧
      Takes single offset used found ∧ IsSingle offset used found := by
  rw [single_element starts, element_eq refuse starts] at success
  obtain ⟨⟨⟨tag, start⟩, last⟩, readStart, success⟩ := bind_eq_ok success
  simp only at success
  split at success
  · next alone =>
    cases success
    obtain ⟨used, rest, rfl, rfl, takes⟩ := elementStart_takesOnly _ _ _ _ readStart
    exact ⟨used, rest, rfl, rfl, takes_alone takes alone,
      .element rfl rfl rfl alone ⟨start, takes, rfl, rfl⟩⟩
  · cases success

end Kinds

/-- A statement without content is read up to its own end and no further. -/
theorem single_yields : Yields single IsSingle := by
  intro offset text found after success
  rcases single_starts success with ⟨tail, rfl, goesOn⟩ | starts | starts
  · rw [single_curly goesOn] at success
    rcases curly_cases refuse offset tail with ⟨isInline, equal⟩ | ⟨present, inside, rfl, equal⟩ |
      ⟨present, rest, -, -, -, equal⟩ | ⟨cause, -, equal⟩ <;> rw [equal] at success
    · obtain ⟨⟨tag, last⟩, read, success⟩ := bind_eq_ok success
      cases success
      exact single_of_mustache goesOn isInline read
    · obtain ⟨⟨remark, last⟩, read, success⟩ := bind_eq_ok success
      cases success
      exact single_of_remark goesOn read
    · exact absurd success block_refuse
    · cases success
  · exact single_of_comment starts success
  · exact single_of_element starts success

end TagMigration.Reader
