/-
Scanning inline tags, comments and start tags as they are read. The sizes that a scanner steps over
without looking again, such as two braces or an exclamation mark, are those of characters that its
caller has seen there. The loop over the pieces of a start tag gets further in every round, and so
does the loop over a quoted value, which takes one character or one curly tag at a time.
-/
import TagMigration.Proofs.Reading.Start
import TagMigration.Proofs.Scanning.Call
import TagMigration.Scanner.StartTag

namespace TagMigration.Scan

/-! ### Inline tags -/

section Tags

variable {source : List Char} {rounds : Nat}

/-- The place behind a token that stands at a place. -/
theorem skip_ascii {cursor : Cursor} {token : List Char} {count : Nat}
    (starts : token <+: cursor.rest) (length : token.length = count)
    (size : byteSize token = count) : (cursor.skip count).offset = cursor.offset + count := by
  rw [← length, skip_offset starts, size, length]

theorem scans_mustache (few : source.length < rounds) {cursor : Cursor} (here : At source cursor)
    (braces : ['{', '{'] <+: cursor.rest) :
    Agrees source (cursor.offset + 1) (mustache source rounds cursor.offset)
      (Reader.mustache cursor) := by
  refine Agrees.step (rest_eq here) ?_
  obtain ⟨trusting, third⟩ : ∃ trusting, ['{', '{', '{'].isPrefixOf cursor.rest = trusting :=
    ⟨_, rfl⟩
  have width : (cursor.skip (if trusting then 3 else 2)).offset =
      cursor.offset + if trusting then 3 else 2 := by
    cases trusting with
    | true => exact skip_ascii (List.isPrefixOf_iff_prefix.mp third) rfl rfl
    | false => exact skip_ascii braces rfl rfl
  have inside := here.skip (if trusting then 3 else 2)
  have onward : cursor.offset ≤ (cursor.skip (if trusting then 3 else 2)).offset := skip_le _ _
  simp only [Reader.mustache, Cursor.startsWith, third]
  rw [← width]
  generalize cursor.skip (if trusting then 3 else 2) = place at inside onward ⊢
  have marker := eatTilde_le place
  refine Agrees.step (eat_tilde inside) (Agrees.step (rest_eq inside.eatTilde) ?_)
  simp only
  split
  · exact agrees_fault here.isBoundary rfl
  · refine Agrees.bind (scans_tagCall few here.isBoundary _ _ inside.eatTilde (Nat.zero_le _))
      fun parts after there further => ?_
    simp only
    split
    · exact .ok there (by omega)
    · exact agrees_fault here.isBoundary rfl

/-! ### Comments -/

theorem prefix_of_before? {token text head : List Char} (found : before? token text = some head) :
    head <+: text := by
  obtain ⟨tail, rfl⟩ := before?_eq_some found
  exact ⟨token ++ tail, by simp⟩

theorem commentEnd_eq (long : Bool) {cursor : Cursor} (here : At source cursor) :
    commentEnd source long cursor.offset =
      .ok ((Reader.commentSearch long cursor.rest).map
        fun found => (byteSize found.1, found.2)) := by
  obtain ⟨offset, text⟩ := cursor
  rw [commentEnd, bind_ok (rest_eq here), Reader.commentSearch]
  cases long with
  | true =>
    simp only [if_true, find, Reader.longComment?]
    cases plain : before? ['-', '-', '}', '}'] text with
    | none => cases before? ['-', '-', '~', '}', '}'] text <;> rfl
    | some first =>
      cases marked : before? ['-', '-', '~', '}', '}'] text with
      | none => rfl
      | some second =>
        simp only [Option.map_some,
          byteSize_le_iff (prefix_of_before? plain) (prefix_of_before? marked)]
        split <;> rfl
  | false =>
    simp only [Bool.false_eq_true, if_false, find, Reader.shortComment?]
    cases found : before? ['}', '}'] text with
    | none => rfl
    | some inside =>
      obtain ⟨tail, rfl⟩ := before?_eq_some found
      rw [List.append_assoc] at here
      simp only [Option.map_some]
      rw [bind_ok (slice_eq here)]
      by_cases marked : inside.getLast? = some '~'
      · obtain ⟨front, rfl⟩ := List.getLast?_eq_some_iff.mp marked
        rw [if_pos ⟨le_byteSize (by simp), marked⟩, if_pos marked, List.dropLast_concat,
          byteSize_append]
        rfl
      · rw [if_neg (fun both => marked both.2), if_neg marked]

theorem scans_curlyComment {begin : Cursor} {offset : Nat} {text : List Char}
    (here : At source ⟨offset, '!' :: text⟩) (boundary : IsBoundary source begin.offset) :
    Agrees source (offset + 1) (curlyComment source begin.offset offset)
      (Reader.curlyComment begin ⟨offset, '!' :: text⟩) := by
  have marked : At source ⟨offset + 1, text⟩ := @At.behind _ _ ['!'] _ here
  obtain ⟨long, inner, rfl, plain⟩ := Reader.exists_dashes text
  have dashes : eat source ['-', '-'] (offset + 1) =
      .ok (long, offset + 1 + byteSize (Reader.commentDashes long)) := by
    cases long with
    | true => exact eat_eq marked ['-', '-']
    | false =>
      have absent : ¬ (⟨offset + 1, inner⟩ : Cursor).startsWith ['-', '-'] = true := by
        rw [Cursor.startsWith, plain rfl]
        exact Bool.false_ne_true
      exact (eat_eq marked ['-', '-']).trans (congrArg Except.ok (if_neg absent))
  have inside := marked.behind
  have same : offset + byteSize ('!' :: Reader.commentDashes long) =
      offset + 1 + byteSize (Reader.commentDashes long) :=
    (Nat.add_assoc offset 1 _).symm
  have onward : offset + 1 ≤ offset + 1 + byteSize (Reader.commentDashes long) :=
    Nat.le_add_right _ _
  refine Agrees.step dashes (Agrees.step (commentEnd_eq long inside) ?_)
  rw [← List.cons_append, Reader.curlyComment_eq begin offset plain, same]
  generalize offset + 1 + byteSize (Reader.commentDashes long) = place at inside onward ⊢
  cases found : Reader.commentSearch long inner with
  | none => exact agrees_fault boundary rfl
  | some ending =>
    obtain ⟨value, size⟩ := ending
    obtain ⟨ending, back, rfl, length, sizeInBytes, -⟩ := Reader.commentSearch_finds found
    have whole : (value ++ (ending ++ ['}', '}'])).length = value.length + size := by
      rw [List.length_append, length]
    have after : (⟨place, value ++ (ending ++ ['}', '}']) ++ back⟩ : Cursor).skip
        (value.length + size) = ⟨place + byteSize value + size, back⟩ := by
      rw [Cursor.skip_append_of_length _ whole, byteSize_append, sizeInBytes, Nat.add_assoc]
    have there := inside.skip (value.length + size)
    rw [List.append_assoc] at inside
    refine Agrees.step (slice_eq inside) ?_
    simp only [after] at there ⊢
    exact agrees_ok there rfl rfl (by simp only; omega)

/-! ### Values -/

/-- The text at which a quoted value stops. -/
theorem valueText_stop {quote char : Char} {text : List Char}
    (stops : char = quote ∨ ['{', '{'].isPrefixOf (char :: text)) :
    Reader.valueText quote (char :: text) = [] := by
  rw [Reader.valueText, if_pos stops]

/-- Where the text `front` of a quoted value ends, the value ends or a curly tag stands, behind
which the loop goes on. -/
theorem agrees_valuePart (few : source.length < rounds) {quote : Char}
    (isQuote : quote = '"' ∨ quote = '\'') {begin left size offset : Nat} {front more : List Char}
    {char : Char} (here : At source ⟨offset, front ++ char :: more⟩)
    (run : Reader.valueText quote (front ++ char :: more) = front)
    (stops : char = quote ∨ ['{', '{'].isPrefixOf (char :: more))
    (goesOn : ∀ after, At source after → offset + byteSize front < after.offset →
      Agrees source (after.offset + 1)
        (valueParts source rounds quote begin left after.offset after.offset)
        (Reader.valueParts quote begin size after)) :
    Agrees source (offset + byteSize front + 1)
      (valueParts source rounds quote begin (left + 1) offset (offset + byteSize front))
      (Reader.valueParts quote begin (size + 1) ⟨offset, front ++ char :: more⟩) := by
  refine Agrees.step (rest_eq here.behind) ?_
  rw [Reader.valueParts_succ quote begin size offset run (by simp)]
  simp only
  rw [if_pos stops]
  refine Agrees.step (slice_eq here) ?_
  simp only [Reader.startsWith_single, List.head?_cons, Option.some.injEq]
  refine Agrees.choice (fun isEnd => ?_) fun noEnd => ?_
  · have single : char.utf8Size = 1 := by
      rw [isEnd]
      rcases isQuote with rfl | rfl <;> rfl
    have there := here.behind.skip 1
    rw [skip_one single] at there ⊢
    exact .ok there (Nat.le_refl _)
  · have braces := List.isPrefixOf_iff_prefix.mp (stops.resolve_left noEnd)
    refine Agrees.bind (scans_mustache few here.behind braces) fun tag after there onward => ?_
    refine Agrees.step (goOn_eq onward) (Agrees.bind (goesOn after there onward)
      fun parts last theEnd further => ?_)
    exact .ok theEnd (Nat.le_trans onward (Nat.le_of_succ_le further))

/-- A text `front` has been passed since the last curly tag or the quote. -/
theorem agrees_valueParts (few : source.length < rounds) {quote : Char}
    (isQuote : quote = '"' ∨ quote = '\'') {begin : Nat} (boundary : IsBoundary source begin)
    (left : Nat) : ∀ (size offset : Nat) (front text : List Char),
      At source ⟨offset, front ++ text⟩ →
      Reader.valueText quote (front ++ text) = front ++ Reader.valueText quote text →
      text.length < left → (front ++ text).length ≤ size →
      Agrees source (offset + byteSize front + 1)
        (valueParts source rounds quote begin left offset (offset + byteSize front))
        (Reader.valueParts quote begin size ⟨offset, front ++ text⟩) := by
  induction left with
  | zero =>
    intro size offset front text here run short
    exact absurd short (Nat.not_lt_zero _)
  | succ left inductionHypothesis =>
    intro size offset front text here run short enough
    cases text with
    | nil =>
      rw [Reader.valueText, List.append_nil] at run
      refine Agrees.step (rest_eq here.behind) ?_
      rw [List.append_nil, Reader.valueParts_end run]
      exact agrees_fault boundary rfl
    | cons char more =>
      rw [List.length_append, List.length_cons] at enough
      rw [List.length_cons] at short
      obtain ⟨size, rfl⟩ := Nat.exists_eq_add_one_of_ne_zero (show size ≠ 0 by omega)
      by_cases stops : char = quote ∨ ['{', '{'].isPrefixOf (char :: more)
      · rw [valueText_stop stops, List.append_nil] at run
        refine agrees_valuePart few isQuote here run stops fun after there onward => ?_
        have shorter := here.behind.length_lt there onward
        rw [List.length_cons] at shorter
        exact inductionHypothesis size after.offset [] after.rest there rfl (by omega)
          (by rw [List.nil_append]; omega)
      · have place : offset + byteSize front + char.utf8Size =
            offset + byteSize (front ++ [char]) := by
          rw [byteSize_append, Nat.add_assoc]
          rfl
        refine Agrees.step (rest_eq here.behind) ?_
        simp only
        rw [Reader.valueText, if_neg stops, List.append_cons front char more,
          List.append_cons front char (Reader.valueText quote more)] at run
        rw [if_neg stops]
        rw [List.append_cons] at here ⊢
        refine Agrees.step (goOn_eq (Nat.lt_add_of_pos_right (Char.utf8Size_pos char))) ?_
        rw [place]
        refine Agrees.mono (inductionHypothesis (size + 1) offset (front ++ [char]) more here run
          (by omega) (by simp; omega)) ?_
        rw [← place]
        omega

theorem scans_quotedValue (few : source.length < rounds) {quote : Char}
    (isQuote : quote = '"' ∨ quote = '\'') {offset : Nat} {text : List Char}
    (here : At source ⟨offset, quote :: text⟩) :
    Agrees source (offset + 1) (quotedValue source rounds quote offset)
      (Reader.quotedValue quote ⟨offset, quote :: text⟩) := by
  have inside : (⟨offset, quote :: text⟩ : Cursor).skip 1 = ⟨offset + 1, text⟩ :=
    skip_one (by rcases isQuote with rfl | rfl <;> rfl)
  have there := here.skip 1
  rw [inside] at there
  rw [Reader.quotedValue, inside]
  refine Agrees.bind (agrees_valueParts few isQuote here.isBoundary rounds _ _ [] text there rfl
    (Nat.lt_of_le_of_lt there.length_le few) (Nat.le_refl _)) fun parts after there onward => ?_
  have onward : offset + 1 ≤ after.offset := Nat.le_of_succ_le onward
  simp only
  cases Reader.plainText? parts with
  | some chars => exact .ok there onward
  | none => exact .ok there onward

theorem bareSize_eq {offset : Nat} {text : List Char} (here : At source ⟨offset, text⟩) :
    bareSize source offset (byteSize (text.takeWhile Reader.isBareChar)) =
      .ok (byteSize (Reader.bareText text)) := by
  have whole := @List.takeWhile_append_dropWhile _ Reader.isBareChar text
  have left : text.drop (text.takeWhile Reader.isBareChar).length =
      text.dropWhile Reader.isBareChar := by
    calc text.drop (text.takeWhile Reader.isBareChar).length
      _ = (text.takeWhile Reader.isBareChar ++ text.dropWhile Reader.isBareChar).drop
          (text.takeWhile Reader.isBareChar).length := by rw [whole]
      _ = text.dropWhile Reader.isBareChar := List.drop_left
  rw [Reader.bareText]
  simp only [left]
  rw [← whole] at here
  generalize text.takeWhile Reader.isBareChar = run at here ⊢
  generalize text.dropWhile Reader.isBareChar = tail at here ⊢
  rw [bareSize, bind_ok (slice_eq here)]
  by_cases last : 1 < byteSize run ∧ run.getLast? = some '/'
  · obtain ⟨long, last⟩ := last
    obtain ⟨front, rfl⟩ := List.getLast?_eq_some_iff.mp last
    have longToo : 1 < (front ++ ['/']).length := by
      cases front with
      | nil => exact absurd long (by decide)
      | cons first front => simp
    rw [if_pos ⟨long, last⟩, bind_ok (rest_eq here.behind)]
    refine congrArg Except.ok ?_
    have front_size : byteSize (front ++ ['/']) - 1 = byteSize front := by
      rw [byteSize_append]
      rfl
    split
    · next starts =>
      obtain ⟨more, rfl⟩ := List.isPrefixOf_iff_prefix.mp starts
      simp only [List.singleton_append, if_pos (And.intro longToo last), List.dropLast_concat,
        front_size]
    · next absent =>
      split
      · exact absurd rfl absent
      · rfl
  · rw [if_neg last]
    refine congrArg Except.ok ?_
    have short : ¬ (1 < run.length ∧ run.getLast? = some '/') := fun both =>
      last ⟨Nat.lt_of_lt_of_le both.1 (length_le_byteSize run), both.2⟩
    split
    · rw [if_neg short]
    · rfl

theorem scans_attributeValue (few : source.length < rounds) (name : String) :
    Scans source 0 1 (attributeValue source rounds name) (Reader.attributeValue name) := by
  rintro ⟨offset, text⟩ here -
  refine Agrees.step (rest_eq here) ?_
  simp only
  split
  · exact scans_quotedValue few (.inl rfl) here
  · exact scans_quotedValue few (.inr rfl) here
  · next tail =>
    refine Agrees.bind (scans_mustache few here ⟨tail, rfl⟩) fun tag after there onward => ?_
    exact .ok there onward
  · next noDouble noSingle noBraces =>
    have double : text.head? ≠ some '"' := fun head => by
      obtain ⟨tail, rfl⟩ := List.head?_eq_some_iff.mp head
      exact noDouble tail rfl
    have single : text.head? ≠ some '\'' := fun head => by
      obtain ⟨tail, rfl⟩ := List.head?_eq_some_iff.mp head
      exact noSingle tail rfl
    have plain : ['{', '{'].isPrefixOf text = false := Bool.eq_false_iff.mpr fun starts => by
      obtain ⟨tail, rfl⟩ := List.isPrefixOf_iff_prefix.mp starts
      exact noBraces tail rfl
    rw [Reader.attributeValue_bare name offset double single plain, ← Reader.bareText_isEmpty]
    split
    · exact agrees_fault here.isBoundary rfl
    · next someText =>
      obtain ⟨back, equal⟩ := Reader.bareText_isPrefix text
      have after := @skip_length offset _ _ _ equal.symm
      have there := here.skip (Reader.bareText text).length
      refine Agrees.step (bareSize_eq here) ?_
      rw [← equal] at here
      refine Agrees.step (slice_eq here) ?_
      rw [after] at there ⊢
      exact agrees_ok there rfl rfl
        (Nat.add_le_add_left (le_byteSize (by simpa using someText)) offset)

theorem scans_attr (few : source.length < rounds) (tag : String) :
    Scans source 0 1 (attr source rounds tag) (Reader.attr tag) := by
  rintro ⟨offset, text⟩ here -
  refine Agrees.step (rest_eq here) ?_
  rw [Reader.attr]
  have after := @skip_length offset _ _ _
    (@List.takeWhile_append_dropWhile _ Reader.isAttributeChar text).symm
  have named := here.skip (text.takeWhile Reader.isAttributeChar).length
  simp only
  split
  · exact agrees_fault here.isBoundary rfl
  · next someName =>
    rw [after] at named ⊢
    have onward : offset + 1 ≤ offset + byteSize (text.takeWhile Reader.isAttributeChar) :=
      Nat.add_le_add_left (le_byteSize (by simpa using someName)) offset
    generalize offset + byteSize (text.takeWhile Reader.isAttributeChar) = place at named onward ⊢
    generalize isNamed : (⟨place, text.dropWhile Reader.isAttributeChar⟩ : Cursor) = afterName
      at named ⊢
    obtain rfl : afterName.offset = place := by rw [← isNamed]
    have blanks := blanks_le afterName
    refine Agrees.step (skipBlanks_eq named) (Agrees.step (eat_eq named.skipBlanks ['=']) ?_)
    rw [Cursor.eat?]
    split
    · have equals := skip_le afterName.skipBlanks ['='].length
      have there := named.skipBlanks.skip ['='].length
      generalize afterName.skipBlanks.skip ['='].length = afterEquals at equals there ⊢
      have blanksToo := blanks_le afterEquals
      refine Agrees.step (skipBlanks_eq there) (Agrees.bind
        (scans_attributeValue few _ _ there.skipBlanks (Nat.zero_le _))
        fun value last theEnd further => ?_)
      exact .ok theEnd (by omega)
    · exact .ok named onward

/-- The place inside a curly tag, behind its braces and its `~` marker. -/
theorem braces_at {cursor : Cursor} (here : At source cursor)
    (braces : ['{', '{'] <+: cursor.rest) :
    eat source ['~'] (cursor.offset + 2) =
        .ok ((cursor.skip 2).eatTilde.1, (cursor.skip 2).eatTilde.2.offset) ∧
      At source (cursor.skip 2).eatTilde.2 ∧ cursor.offset < (cursor.skip 2).eatTilde.2.offset := by
  have behind : (cursor.skip 2).offset = cursor.offset + 2 := skip_ascii braces rfl rfl
  have marker := eatTilde_le (cursor.skip 2)
  refine ⟨?_, (here.skip 2).eatTilde, by omega⟩
  rw [← behind]
  exact eat_tilde (here.skip 2)

/-- A tag that begins like a comment has its exclamation mark right behind the `~` marker. -/
theorem exists_mark {cursor : Cursor}
    (isComment :
      (cursor.startsWith ['{', '{', '!'] || cursor.startsWith ['{', '{', '~', '!']) = true) :
    ['{', '{'] <+: cursor.rest ∧
      ∃ offset tail, (cursor.skip 2).eatTilde.2 = ⟨offset, '!' :: tail⟩ := by
  obtain ⟨offset, text⟩ := cursor
  rcases Bool.or_eq_true_iff.mp isComment with plain | marked
  · obtain ⟨tail, rfl⟩ := List.isPrefixOf_iff_prefix.mp plain
    exact ⟨⟨'!' :: tail, rfl⟩, _, tail, rfl⟩
  · obtain ⟨tail, rfl⟩ := List.isPrefixOf_iff_prefix.mp marked
    exact ⟨⟨'~' :: '!' :: tail, rfl⟩, _, tail, rfl⟩

/-- One round over the pieces of a start tag: it is the last, or the loop goes on further behind. -/
theorem agrees_tagPiece (few : source.length < rounds) {begin : Nat}
    (boundary : IsBoundary source begin) (tag : String) {left size : Nat} {cursor : Cursor}
    (here : At source cursor)
    (goesOn : ∀ after, At source after → cursor.offset < after.offset →
      Agrees source (after.offset + 1) (startTag source rounds tag begin left after.offset)
        (Reader.startTag tag begin size after)) :
    Agrees source (cursor.offset + 1) (startTag source rounds tag begin (left + 1) cursor.offset)
      (Reader.startTag tag begin (size + 1) cursor) := by
  refine Agrees.step (skipBlanks_eq here) (Agrees.step (rest_eq here.skipBlanks) ?_)
  have blanks := blanks_le cursor
  rw [Reader.startTag]
  generalize isPlace : cursor.skipBlanks = place at blanks ⊢
  have stands : At source place := isPlace ▸ here.skipBlanks
  refine Agrees.choice (fun _ => agrees_fault boundary rfl) fun _ => ?_
  refine Agrees.choice (fun slash => ?_) fun _ => ?_
  · have after := @skip_ascii _ _ 2 (List.isPrefixOf_iff_prefix.mp slash) rfl rfl
    exact agrees_ok (stands.skip 2) rfl after.symm (by omega)
  refine Agrees.choice (fun bracket => ?_) fun _ => ?_
  · have after := @skip_ascii _ _ 1 (List.isPrefixOf_iff_prefix.mp bracket) rfl rfl
    exact agrees_ok (stands.skip 1) rfl after.symm (by omega)
  refine Agrees.choice (fun isComment => ?_) fun _ => ?_
  · obtain ⟨braces, offset, tail, isInside⟩ := exists_mark isComment
    obtain ⟨eaten, inside, onward⟩ := braces_at stands braces
    refine Agrees.step eaten ?_
    rw [isInside] at inside onward ⊢
    refine Agrees.bind (scans_curlyComment inside stands.isBoundary)
      fun remark after there further => ?_
    have mark : place.offset < offset := onward
    have further : offset + 1 ≤ after.offset := further
    have further : cursor.offset < after.offset := by omega
    exact Agrees.step (goOn_eq further) (Agrees.mono (goesOn after there further) (by omega))
  refine Agrees.choice (fun braces => ?_) fun _ => ?_
  · obtain ⟨eaten, inside, onward⟩ := braces_at stands (List.isPrefixOf_iff_prefix.mp braces)
    refine Agrees.step eaten (Agrees.bind
      (scans_tagCall few stands.isBoundary .braces _ inside (Nat.zero_le _))
      fun parts after there further => ?_)
    refine Agrees.step (goOn_eq (by omega)) (Agrees.bind (goesOn after there (by omega))
      fun more last theEnd further => ?_)
    exact .ok theEnd (by omega)
  cases Reader.paramsIntro? place.rest with
  | some intro =>
    have words := skip_le place intro
    refine Agrees.bind (scans_blockParams _ (stands.skip intro) (Nat.zero_le _))
      fun params after there onward => ?_
    refine Agrees.step (goOn_eq (by omega)) (Agrees.bind (goesOn after there (by omega))
      fun more last theEnd further => ?_)
    exact .ok theEnd (by omega)
  | none =>
    refine Agrees.bind (scans_attr few tag _ stands (Nat.zero_le _))
      fun first after there onward => ?_
    refine Agrees.step (goOn_eq (by omega)) (Agrees.bind (goesOn after there (by omega))
      fun more last theEnd further => ?_)
    exact .ok theEnd (by omega)

theorem scans_startTag (few : source.length < rounds) {begin : Nat}
    (boundary : IsBoundary source begin) (tag : String) (left : Nat) :
    ∀ (size : Nat) (cursor : Cursor), At source cursor → cursor.rest.length < left →
      cursor.rest.length ≤ size →
      Agrees source (cursor.offset + 1) (startTag source rounds tag begin left cursor.offset)
        (Reader.startTag tag begin size cursor) := by
  induction left with
  | zero =>
    intro size cursor here short
    exact absurd short (Nat.not_lt_zero _)
  | succ left inductionHypothesis =>
    intro size cursor here short enough
    cases size with
    | zero =>
      obtain ⟨offset, text⟩ := cursor
      obtain rfl := List.length_eq_zero_iff.mp (Nat.le_zero.mp enough)
      exact Agrees.step (skipBlanks_eq here)
        (Agrees.step (rest_eq here.skipBlanks) (agrees_fault boundary rfl))
    | succ size =>
      refine agrees_tagPiece few boundary tag here fun after there further => ?_
      have shorter := here.length_lt there further
      exact inductionHypothesis size after there (by omega) (by omega)

end Tags

end TagMigration.Scan
