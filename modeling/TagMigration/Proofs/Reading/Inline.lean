/-
Inline tags and comments are read up to their own end. An inline tag ends with the closer of
its call, a comment with the first of its endings. The values of the named arguments of a
tag stand in the text of the tag, which is what allows them to be copied elsewhere.
-/
import TagMigration.Proofs.Reading.Call

namespace TagMigration.Reader

theorem startsWith_single (offset : Nat) (text : List Char) (char : Char) :
    (⟨offset, text⟩ : Cursor).startsWith [char] = true ↔ text.head? = some char := by
  cases text with
  | nil => simp [Cursor.startsWith]
  | cons first rest =>
    simp only [Cursor.startsWith, List.isPrefixOf, Bool.and_true, beq_iff_eq, List.head?_cons,
      Option.some.injEq]
    exact eq_comm

theorem head?_append_left {front : List Char} (nonempty : front ≠ []) (back : List Char) :
    (front ++ back).head? = front.head? := by
  cases front with
  | nil => exact absurd rfl nonempty
  | cons char rest => rfl

/-! ### Inline tags -/

/-- What is known of an inline tag from its text. -/
structure IsMustache (offset : Nat) (text : List Char) (tag : Mustache) : Prop where
  takes : Takes mustache offset text tag
  span : tag.span = some ⟨offset, offset + byteSize text⟩
  values : ∀ argument ∈ tag.call.named, argument.value.Within offset text
  ends : ∃ front, text = front ++ ['}', '}'] ∧ 3 ≤ front.length

theorem IsMustache.long {offset : Nat} {text : List Char} {tag : Mustache}
    (isMustache : IsMustache offset text tag) : 5 ≤ text.length := by
  obtain ⟨front, rfl, length⟩ := isMustache.ends
  simpa using length

/-- The closer of an inline tag. -/
def inlineCloser (trusting : Bool) : Closer :=
  if trusting then .tripleBraces else .braces

/-- The reader of inline tags after its look at the third brace and the `~` marker. -/
theorem mustache_eq {offset place : Nat} {text rest : List Char} {trusting present : Bool}
    (braces : (⟨offset, text⟩ : Cursor).startsWith ['{', '{', '{'] = trusting)
    (skipped : (⟨offset, text⟩ : Cursor).skip (if trusting then 3 else 2) =
      ⟨place, tilde present ++ rest⟩)
    (other : present = false → rest.head? ≠ some '~') :
    mustache ⟨offset, text⟩ =
      if (⟨place + byteSize (tilde present), rest⟩ : Cursor).startsWith ['#'] ||
          (⟨place + byteSize (tilde present), rest⟩ : Cursor).startsWith ['!'] ||
          (⟨place + byteSize (tilde present), rest⟩ : Cursor).startsWith ['/'] then
        fault offset .notInline
      else (do
        let (parts, after) ← tagCall (inlineCloser trusting) offset
          ⟨place + byteSize (tilde present), rest⟩
        if parts.params.isEmpty then
          .ok (⟨parts.call, trusting, ⟨present, parts.trimAfter⟩, some ⟨offset, after.offset⟩⟩,
            after)
        else fault offset .paramsOnMustache) := by
  simp only [mustache, braces, skipped, Cursor.eatTilde_tilde _ other]
  rfl

/-- What an inline tag is read from: braces, a `~` marker or none, and a call up to its closer. -/
theorem mustache_eq_ok {cursor after : Cursor} {tag : Mustache}
    (success : mustache cursor = .ok (tag, after)) :
    tag.trusting = cursor.startsWith ['{', '{', '{'] ∧
      tag.trim.before = (cursor.skip (if tag.trusting then 3 else 2)).eatTilde.1 ∧
      tag.span = some (cursor.spanTo after) ∧
      ∃ parts, tagCall (inlineCloser tag.trusting) cursor.offset
          (cursor.skip (if tag.trusting then 3 else 2)).eatTilde.2 = .ok (parts, after) ∧
        tag.call = parts.call ∧ tag.trim.after = parts.trimAfter := by
  rw [mustache] at success
  generalize cursor.startsWith ['{', '{', '{'] = trusting at success ⊢
  generalize isWidth : (if trusting = true then 3 else 2) = width at success
  simp only at success
  split at success
  · cases success
  · generalize isCloser : (if trusting = true then Closer.tripleBraces else Closer.braces) = closer
      at success
    obtain ⟨⟨parts, last⟩, readParts, success⟩ := bind_eq_ok success
    simp only at success
    split at success
    · cases success
      subst isWidth isCloser
      exact ⟨rfl, rfl, rfl, parts, readParts, rfl, rfl⟩
    · cases success

/-- The text of an inline tag around the text of its call. -/
def inlineText (lead : List Char) (trusting trimBefore : Bool) (inside : List Char) : List Char :=
  lead ++ (tilde trimBefore ++ (inside ++ (inlineCloser trusting).chars))

theorem inlineText_append (lead : List Char) (trusting trimBefore : Bool)
    (inside rest : List Char) :
    inlineText lead trusting trimBefore inside ++ rest =
      lead ++ (tilde trimBefore ++ (inside ++ ((inlineCloser trusting).chars ++ rest))) := by
  simp [inlineText]

/-- A call between braces is an inline tag if it reads as one in front of one text. -/
theorem IsCall.isMustache {offset : Nat} {lead inside back : List Char}
    {trusting trimBefore : Bool} {parts : CallParts}
    (length : lead.length = if trusting then 3 else 2)
    (braces : (⟨offset, inlineText lead trusting trimBefore inside ++ back⟩ : Cursor).startsWith
      ['{', '{', '{'] = trusting)
    (isCall : IsCall expression (inlineCloser trusting) inside.length
      (offset + byteSize lead + byteSize (tilde trimBefore)) inside parts)
    (other : trimBefore = false → inside.head? ≠ some '~')
    (inline : inside.head? ≠ some '#' ∧ inside.head? ≠ some '!' ∧ inside.head? ≠ some '/')
    (unbound : parts.params.isEmpty = true) :
    IsMustache offset (inlineText lead trusting trimBefore inside)
      ⟨parts.call, trusting, ⟨trimBefore, parts.trimAfter⟩,
        some ⟨offset, offset + byteSize (inlineText lead trusting trimBefore inside)⟩⟩ := by
  have someInside := List.length_pos_iff.mpr isCall.nonempty
  have long : 3 ≤ lead.length + inside.length := by
    split at length <;> omega
  have place : offset + byteSize lead + byteSize (tilde trimBefore) + byteSize inside +
      byteSize (inlineCloser trusting).chars =
        offset + byteSize (inlineText lead trusting trimBefore inside) := by
    simp only [inlineText, byteSize_append, Nat.add_assoc]
  refine ⟨fun rest => ?_, rfl, fun argument member => ?_, ?_⟩
  · have bracesHere : (⟨offset, inlineText lead trusting trimBefore inside ++ rest⟩ :
        Cursor).startsWith ['{', '{', '{'] = trusting := by
      have fits : ['{', '{', '{'].length ≤ (inlineText lead trusting trimBefore inside).length := by
        simp only [inlineText, List.length_append, List.length_cons, List.length_nil]
        omega
      rw [Cursor.startsWith, isPrefixOf_append _ _ fits] at braces ⊢
      exact braces
    rw [inlineText_append] at bracesHere ⊢
    rw [mustache_eq bracesHere (Cursor.skip_append_of_length offset length)
      (by rwa [head?_append_left isCall.nonempty]), if_neg, isCall.tag offset rest]
    · simp only [place]
      exact if_pos unbound
    · simpa only [Bool.or_eq_true, startsWith_single, head?_append_left isCall.nonempty, not_or,
        and_assoc] using inline
  · rw [inlineText]
    exact (((isCall.values argument member).append_right _).append_left _).append_left _
  · cases trusting with
    | true =>
      exact ⟨lead ++ (tilde trimBefore ++ (inside ++ ['}'])),
        by simp [inlineText, inlineCloser, Closer.chars],
        by simp only [List.length_append]; omega⟩
    | false =>
      exact ⟨lead ++ (tilde trimBefore ++ inside),
        by simp [inlineText, inlineCloser, Closer.chars],
        by simp only [List.length_append]; omega⟩

/-- An inline tag is read up to its closer and no further. -/
theorem mustache_isMustache {offset : Nat} {text : List Char} {tag : Mustache} {after : Cursor}
    (success : mustache ⟨offset, text⟩ = .ok (tag, after)) :
    ∃ used rest, text = used ++ rest ∧ after = ⟨offset + byteSize used, rest⟩ ∧
      IsMustache offset used tag := by
  obtain ⟨trusting, braces⟩ : ∃ trusting,
      (⟨offset, text⟩ : Cursor).startsWith ['{', '{', '{'] = trusting := ⟨_, rfl⟩
  obtain ⟨lead, present, tail, textEq, skipped, width, other⟩ : ∃ lead present tail,
      text = lead ++ (tilde present ++ tail) ∧
      (⟨offset, text⟩ : Cursor).skip (if trusting then 3 else 2) =
        ⟨offset + byteSize lead, tilde present ++ tail⟩ ∧
      (tail ≠ [] → lead.length = if trusting then 3 else 2) ∧
      (present = false → tail.head? ≠ some '~') := by
    obtain ⟨present, tail, left, other⟩ :=
      Cursor.exists_tilde (text.drop (if trusting then 3 else 2))
    refine ⟨text.take (if trusting then 3 else 2), present, tail, ?_, ?_, fun nonempty => ?_, other⟩
    · rw [← left, List.take_append_drop]
    · rw [← left]
      rfl
    · have size := congrArg List.length left
      have long := List.length_pos_iff.mpr nonempty
      rw [List.length_drop, List.length_append] at size
      rw [List.length_take]
      omega
  rw [mustache_eq braces skipped other] at success
  split at success
  · cases success
  next inline =>
  obtain ⟨⟨parts, last⟩, readParts, success⟩ := bind_eq_ok success
  obtain ⟨inside, rest, rfl, rfl, isCall⟩ := tagCall_isCall readParts
  simp only at success
  split at success
  · next unbound =>
    cases success
    rw [← inlineText_append] at textEq
    have place : offset + byteSize lead + byteSize (tilde present) + byteSize inside +
        byteSize (inlineCloser trusting).chars =
          offset + byteSize (inlineText lead trusting present inside) := by
      simp only [inlineText, byteSize_append, Nat.add_assoc]
    rw [head?_append_left isCall.nonempty] at other
    simp only [Bool.or_eq_true, startsWith_single, head?_append_left isCall.nonempty, not_or,
      and_assoc] at inline
    refine ⟨inlineText lead trusting present inside, rest, textEq, by rw [place], ?_⟩
    rw [place]
    exact isCall.isMustache (width (by simp [isCall.nonempty])) (textEq ▸ braces) other inline unbound
  · cases success

/-! ### Comments -/

/-- The search of an ending yields the inside `value` of `text` and the size of the ending behind
it, in characters and in bytes, and yields them whatever follows that ending. -/
def FindsEnding (search : List Char → Option (List Char × Nat)) (text value : List Char)
    (size : Nat) : Prop :=
  ∃ ending rest, text = value ++ (ending ++ ['}', '}']) ++ rest ∧
    (ending ++ ['}', '}']).length = size ∧ byteSize (ending ++ ['}', '}']) = size ∧
      ∀ other, search (value ++ (ending ++ ['}', '}']) ++ other) = some (value, size)

/-- A token that is found before the end of `front` in one text is found there in every text. -/
theorem before?_earlier {token front back other head : List Char} {limit : Nat}
    (late : ∀ head, before? token (front ++ back) = some head → limit ≤ head.length)
    (fits : limit + token.length ≤ front.length + 1)
    (found : before? token (front ++ other) = some head) : limit ≤ head.length := by
  apply Nat.le_of_not_lt
  intro early
  have again : before? token (front ++ back) = some head := before?_append found (by omega)
  exact absurd (late head again) (Nat.not_le_of_lt early)

/-- A long comment ends at the first ending without a marker, unless one with a marker stands
before it, and the other way round. -/
theorem longComment?_eq_some {text value : List Char} {size : Nat} :
    longComment? text = some (value, size) ↔
      (size = 4 ∧ before? ['-', '-', '}', '}'] text = some value ∧
        ∀ head, before? ['-', '-', '~', '}', '}'] text = some head → value.length ≤ head.length) ∨
      (size = 5 ∧ before? ['-', '-', '~', '}', '}'] text = some value ∧
        ∀ head, before? ['-', '-', '}', '}'] text = some head →
          value.length + 1 ≤ head.length) := by
  rw [longComment?]
  cases before? ['-', '-', '}', '}'] text with
  | none => cases before? ['-', '-', '~', '}', '}'] text <;> grind
  | some plain => cases before? ['-', '-', '~', '}', '}'] text <;> grind

theorem longComment?_finds {text value : List Char} {size : Nat}
    (found : longComment? text = some (value, size)) :
    FindsEnding longComment? text value size := by
  rcases longComment?_eq_some.mp found with ⟨rfl, first, late⟩ | ⟨rfl, first, late⟩
  · obtain ⟨rest, rfl⟩ := before?_eq_some first
    refine ⟨['-', '-'], rest, rfl, rfl, rfl,
      fun other => longComment?_eq_some.mpr (.inl ⟨rfl, ?_, ?_⟩)⟩
    · exact before?_append first (by simp)
    · exact fun head => before?_earlier late (by simp)
  · obtain ⟨rest, rfl⟩ := before?_eq_some first
    refine ⟨['-', '-', '~'], rest, rfl, rfl, rfl,
      fun other => longComment?_eq_some.mpr (.inr ⟨rfl, ?_, ?_⟩)⟩
    · exact before?_append first (by simp)
    · exact fun head => before?_earlier late (by simp)

theorem shortComment?_finds {text value : List Char} {size : Nat}
    (found : shortComment? text = some (value, size)) :
    FindsEnding shortComment? text value size := by
  obtain ⟨inside, first, result⟩ := Option.map_eq_some_iff.mp found
  obtain ⟨rest, rfl⟩ := before?_eq_some first
  have again (other : List Char) : before? ['}', '}'] (inside ++ ['}', '}'] ++ other) = some inside :=
    before?_append first (by simp)
  split at result
  · next marked =>
    cases result
    obtain ⟨front, rfl⟩ : ∃ front, inside = front ++ ['~'] := by
      exact List.getLast?_eq_some_iff.mp marked
    refine ⟨['~'], rest, by simp, rfl, rfl, fun other => ?_⟩
    rw [List.dropLast_concat, shortComment?, ← List.append_assoc front, again other]
    simp
  · next unmarked =>
    cases result
    refine ⟨[], rest, by simp, rfl, rfl, fun other => ?_⟩
    rw [List.nil_append, shortComment?, again other, Option.map_some, if_neg unmarked]

/-- The dashes of a long comment. -/
def commentDashes (long : Bool) : List Char :=
  if long then ['-', '-'] else []

/-- The search for the ending of a comment. -/
def commentSearch (long : Bool) : List Char → Option (List Char × Nat) :=
  if long then longComment? else shortComment?

theorem commentSearch_finds {long : Bool} {text value : List Char} {size : Nat}
    (found : commentSearch long text = some (value, size)) :
    FindsEnding (commentSearch long) text value size := by
  cases long with
  | true => exact longComment?_finds found
  | false => exact shortComment?_finds found

theorem exists_dashes (text : List Char) :
    ∃ long inner, text = commentDashes long ++ inner ∧
      (long = false → ['-', '-'].isPrefixOf inner = false) := by
  by_cases dashed : ['-', '-'].isPrefixOf text = true
  · obtain ⟨inner, rfl⟩ := List.isPrefixOf_iff_prefix.mp dashed
    exact ⟨true, inner, rfl, fun absurd => nomatch absurd⟩
  · exact ⟨false, text, rfl, fun _ => Bool.eq_false_iff.mpr dashed⟩

theorem curlyComment_eq (begin : Cursor) (offset : Nat) {long : Bool} {inner : List Char}
    (plain : long = false → ['-', '-'].isPrefixOf inner = false) :
    curlyComment begin ⟨offset, '!' :: commentDashes long ++ inner⟩ =
      match commentSearch long inner with
      | none => fault begin.offset .unclosedCurlyComment
      | some (value, ending) =>
        .ok (⟨String.ofList value, long, some (begin.spanTo
          ((⟨offset + byteSize ('!' :: commentDashes long), inner⟩ : Cursor).skip
            (value.length + ending)))⟩,
          (⟨offset + byteSize ('!' :: commentDashes long), inner⟩ : Cursor).skip
            (value.length + ending)) := by
  have skipped : (⟨offset, '!' :: commentDashes long ++ inner⟩ : Cursor).skip 1 =
      ⟨offset + byteSize ['!'], commentDashes long ++ inner⟩ :=
    Cursor.skip_append offset ['!'] (commentDashes long ++ inner)
  have dashed : (⟨offset + byteSize ['!'], commentDashes long ++ inner⟩ : Cursor).startsWith
      ['-', '-'] = long := by
    cases long with
    | true => rfl
    | false => exact plain rfl
  simp only [curlyComment, skipped, dashed]
  cases long with
  | true => rfl
  | false => rfl

/-- A curly comment is read up to its ending and no further. -/
theorem curlyComment_takes {begin : Cursor} {offset : Nat} {text : List Char}
    {remark : CurlyComment} {after : Cursor} (marked : text.head? = some '!')
    (success : curlyComment begin ⟨offset, text⟩ = .ok (remark, after)) :
    ∃ used rest, text = '!' :: used ++ ['}', '}'] ++ rest ∧
      after = ⟨offset + byteSize ('!' :: used ++ ['}', '}']), rest⟩ ∧
      remark.span = some ⟨begin.offset, offset + byteSize ('!' :: used ++ ['}', '}'])⟩ ∧
      Takes (curlyComment begin) offset ('!' :: used ++ ['}', '}']) remark := by
  obtain ⟨tail, rfl⟩ : ∃ tail, text = '!' :: tail := List.head?_eq_some_iff.mp marked
  obtain ⟨long, inner, rfl, plain⟩ := exists_dashes tail
  rw [← List.cons_append, curlyComment_eq begin offset plain] at success
  split at success
  · cases success
  · next value size found =>
    obtain ⟨ending, rest, rfl, rfl, -, again⟩ := commentSearch_finds found
    have length : (value ++ (ending ++ ['}', '}'])).length =
      value.length + (ending ++ ['}', '}']).length := List.length_append
    have upTo (rest : List Char) : '!' :: (commentDashes long ++ (value ++ ending)) ++ ['}', '}'] ++ rest =
        '!' :: commentDashes long ++ (value ++ (ending ++ ['}', '}']) ++ rest) := by
      simp
    have place : offset + byteSize ('!' :: commentDashes long) +
        byteSize (value ++ (ending ++ ['}', '}'])) =
          offset + byteSize ('!' :: (commentDashes long ++ (value ++ ending)) ++ ['}', '}']) := by
      simp only [byteSize_append, byteSize_cons, Nat.add_assoc]
    rw [Cursor.skip_append_of_length _ length, place] at success
    cases success
    refine ⟨commentDashes long ++ (value ++ ending), rest, (upTo rest).symm, rfl, rfl, fun other => ?_⟩
    have plainHere : long = false →
        ['-', '-'].isPrefixOf (value ++ (ending ++ ['}', '}']) ++ other) = false := by
      have fits : ['-', '-'].length ≤ (value ++ (ending ++ ['}', '}'])).length := by simp; omega
      rw [isPrefixOf_append _ _ fits] at plain ⊢
      exact plain
    rw [upTo, curlyComment_eq begin offset plainHere, again other]
    simp only [Cursor.skip_append_of_length _ length, place]
    rfl

/-- A markup comment is read up to its ending and no further. -/
theorem comment_takesOnly {offset : Nat} {text : List Char} {remark : Comment} {after : Cursor}
    (marked : ['<', '!', '-', '-'].isPrefixOf text)
    (success : comment ⟨offset, text⟩ = .ok (remark, after)) :
    ∃ used rest, text = used ++ rest ∧ after = ⟨offset + byteSize used, rest⟩ ∧
      remark.span = some ⟨offset, offset + byteSize used⟩ ∧
      used = ['<', '!', '-', '-'] ++ (remark.value.toList ++ ['-', '-', '>']) ∧
      Takes comment offset used remark := by
  obtain ⟨tail, rfl⟩ := List.isPrefixOf_iff_prefix.mp marked
  have skipped (tail : List Char) : (⟨offset, ['<', '!', '-', '-'] ++ tail⟩ : Cursor).skip 4 =
      ⟨offset + byteSize ['<', '!', '-', '-'], tail⟩ :=
    Cursor.skip_append offset ['<', '!', '-', '-'] tail
  simp only [comment, skipped] at success
  split at success
  · cases success
  · next value found =>
    obtain ⟨rest, rfl⟩ := before?_eq_some found
    have length : (value ++ ['-', '-', '>']).length = value.length + 3 := by simp
    have place : offset + byteSize ['<', '!', '-', '-'] + byteSize (value ++ ['-', '-', '>']) =
        offset + byteSize (['<', '!', '-', '-'] ++ (value ++ ['-', '-', '>'])) := by
      rw [byteSize_append ['<', '!', '-', '-'], Nat.add_assoc]
    rw [Cursor.skip_append_of_length _ length, place] at success
    cases success
    refine ⟨['<', '!', '-', '-'] ++ (value ++ ['-', '-', '>']), rest, by simp, rfl, rfl,
      by rw [String.toList_ofList], fun other => ?_⟩
    have again : before? ['-', '-', '>'] (value ++ ['-', '-', '>'] ++ other) = some value :=
      before?_append found (by simp)
    simp only [comment, List.append_assoc _ _ other, skipped]
    rw [← List.append_assoc value, again]
    simp only [Cursor.skip_append_of_length _ length, place]
    rfl

end TagMigration.Reader
