/-
What is read is spelled. The reader of content stops where something stands that stops content, and
what it has passed over is one statement after the other, each of them spelled as the grammar says.
The induction is on the number of characters that may be left.
-/
import TagMigration.Proofs.Reading.Spelling

namespace TagMigration.Reader

/-! ### What is read is spelled -/

/-- Every content that the reader reads from a text of at most `size` characters is spelled. -/
def ReadsSpellings (size : Nat) (nested : ContentReader) : Prop :=
  ∀ offset text body stop after, text.length ≤ size →
    nested ⟨offset, text⟩ = .ok ((body, stop), after) →
    ∃ spelled rest, text = spelled ++ rest ∧ after = ⟨offset + byteSize spelled, rest⟩ ∧
      stop? rest = some stop ∧ Spelling rest.head? offset spelled (.content body)

theorem eq_nil_of_stop? {text : List Char} (stops : stop? text = some .endOfInput) : text = [] := by
  unfold stop? at stops
  split at stops
  · rfl
  · cases stops
  · simp only at stops
    split at stops
    · cases stops
    · split at stops <;> cases stops
  · cases stops

/-- A tag in braces begins with a brace. -/
theorem head?_of_stop? {text : List Char} {stop : Stop} (stops : stop? text = some stop)
    (curly : stop = .closeTag ∨ stop = .elseTag) : text.head? = some '{' := by
  unfold stop? at stops
  split at stops
  · cases stops
    exact absurd curly (by decide)
  · cases stops
    exact absurd curly (by decide)
  · rfl
  · cases stops

section Sound

variable {size : Nat} {nested : ContentReader}

/-- What stands between the program and the closing tag of a block is spelled. -/
theorem blockTail_spelling (reads : ReadsSpellings size nested) :
    ∀ (fuel offset : Nat) (text : List Char) (opening : BlockOpening) (program : Program)
      (stop : Stop) (content : BlockContent) (after : Cursor), text.length ≤ size →
    stop? text = some stop →
    blockTail nested fuel opening program stop ⟨offset, text⟩ = .ok (content, after) →
    content.program = program ∧ ∃ tail rest, text = tail ++ rest ∧
      after = ⟨offset + byteSize tail, rest⟩ ∧ stop? rest = some .closeTag ∧
      ∀ tags : BlockTags, tags.elseTrim = content.elseTrim → tags.elseSpan = content.elseSpan →
        Spelling (some '{') offset tail (.inverse tags content.inverse) := by
  intro fuel
  induction fuel using Nat.strongRecOn with
  | _ fuel inductionHypothesis =>
    intro offset text opening program stop content after short stops success
    rcases blockTail_cases stops success with rfl | ⟨rfl, ⟨trim, last, read⟩ | ⟨chained, last, read⟩⟩
    · cases success
      exact ⟨rfl, [], text, rfl, rfl, stops, fun tags trim span => .noInverse trim span⟩
    · rw [blockTail_elseTag nested fuel opening program read] at success
      obtain ⟨⟨⟨body, stopBody⟩, close⟩, readBody, success⟩ := bind_eq_ok success
      obtain ⟨closed, isClosed, success⟩ := bind_eq_ok success
      cases success
      obtain rfl := unclosed_eq_ok isClosed
      obtain ⟨piece, tail, rfl, rfl, takes⟩ := elseTag_takesOnly _ _ _ _ read
      rw [List.length_append] at short
      obtain ⟨inside, rest, rfl, rfl, stopsRest, spelling⟩ :=
        reads _ _ _ _ _ (by omega) readBody
      rw [head?_of_stop? stopsRest (.inl rfl)] at spelling
      refine ⟨rfl, piece ++ inside, rest, by simp, by simp [Nat.add_assoc], stopsRest,
        fun tags trim span => ?_⟩
      exact .elseBody (trim ▸ takes) span spelling
    · rw [blockTail_elseOpening nested fuel opening program read] at success
      obtain ⟨⟨inner, close⟩, readInner, success⟩ := bind_eq_ok success
      cases success
      cases fuel with
      | zero => cases readInner
      | succ fuel =>
        rw [blockContent_succ] at readInner
        obtain ⟨⟨⟨body, stopBody⟩, afterBody⟩, readBody, readInner⟩ := bind_eq_ok readInner
        obtain ⟨start, tail, rfl, rfl, takes⟩ := elseOpening_yields.takesOnly _ _ _ _ read
        rw [List.length_append] at short
        obtain ⟨inside, tail, rfl, rfl, stopsTail, spelling⟩ :=
          reads _ _ _ _ _ (by omega) readBody
        rw [List.length_append] at short
        have curly : stopBody = .closeTag ∨ stopBody = .elseTag :=
          (blockTail_cases stopsTail readInner).imp id And.left
        rw [head?_of_stop? stopsTail curly] at spelling
        obtain ⟨programEq, tail, rest, rfl, rfl, stopsRest, others⟩ := inductionHypothesis fuel
          (Nat.lt_succ_self fuel) _ _ _ _ _ _ _ (by omega) stopsTail readInner
        have place : offset + byteSize start + byteSize inside + byteSize tail =
            offset + byteSize (start ++ inside ++ tail) := by
          simp only [byteSize_append, Nat.add_assoc]
        refine ⟨rfl, start ++ inside ++ tail, rest, by simp, by rw [place], stopsRest,
          fun tags trim span => ?_⟩
        rw [programEq, Cursor.spanTo, place]
        refine .elseBlock trim span takes spelling ?_
        rw [byteSize_append, ← Nat.add_assoc]
        exact others _ rfl rfl

/-- The content of a block ends in front of a closing tag. -/
theorem blockContent_stops (reads : ReadsSpellings size nested) {fuel offset : Nat}
    {text : List Char} {opening : BlockOpening} {content : BlockContent} {after : Cursor}
    (short : text.length ≤ size)
    (success : blockContent nested fuel opening ⟨offset, text⟩ = .ok (content, after)) :
    stop? after.rest = some .closeTag := by
  cases fuel with
  | zero => cases success
  | succ fuel =>
    rw [blockContent_succ] at success
    obtain ⟨⟨⟨body, stop⟩, last⟩, readBody, success⟩ := bind_eq_ok success
    obtain ⟨inside, others, rfl, rfl, stops, -⟩ := reads _ _ _ _ _ short readBody
    rw [List.length_append] at short
    obtain ⟨-, tail, rest, -, rfl, closes, -⟩ :=
      blockTail_spelling reads _ _ _ _ _ _ _ _ (by omega) stops success
    exact closes

/-- The reading `first` of a text can be put in front of any content that is spelled behind it. -/
def Precedes (offset : Nat) (text : List Char) (first : Statement) (after : Cursor) : Prop :=
  ∃ used rest, used ≠ [] ∧ text = used ++ rest ∧ after = ⟨offset + byteSize used, rest⟩ ∧
    ∀ spelled back body, rest = spelled ++ back → EndsRun back →
      Spelling back.head? (offset + byteSize used) spelled (.content body) →
        Spelling back.head? offset (used ++ spelled) (.content (first :: body))

theorem precedes_of_single {offset : Nat} {text : List Char} {first : Statement} {after : Cursor}
    (success : single ⟨offset, text⟩ = .ok (first, after)) : Precedes offset text first after := by
  obtain ⟨used, rest, rfl, rfl, takes, -⟩ := single_yields _ _ _ _ success
  refine ⟨used, rest, ?_, rfl, rfl, fun spelled back body _ _ spelling => .single takes spelling⟩
  rintro rfl
  cases takes []

theorem precedes_of_text {offset : Nat} {text : List Char} (goesOn : stop? text = none)
    (plain : endsText text = false) :
    Precedes offset text (.text (Reader.text ⟨offset, text⟩).1) (Reader.text ⟨offset, text⟩).2 := by
  obtain ⟨rest, equal, ends⟩ := exists_textRun text
  have nonempty := textRun_ne_nil goesOn plain
  simp only [Reader.text]
  generalize run : textRun text = front at equal nonempty ⊢
  subst equal
  rw [Cursor.skip_append]
  refine ⟨front, rest, nonempty, rfl, rfl, fun spelled back body equal endsBack spelling => ?_⟩
  subst equal
  have isRun := isRun_of_textRun run ends
  rw [head?_append_or] at isRun
  exact .text nonempty isRun (spelling.not_startsWithText endsBack rfl ends) spelling

theorem precedes_of_block (reads : ReadsSpellings size nested) {offset : Nat} {text : List Char}
    {opening : BlockOpening} {afterStart : Cursor} {first : Statement} {after : Cursor}
    (short : text.length ≤ size + 1)
    (starts : blockStart ⟨offset, text⟩ = .ok (opening, afterStart))
    (success : curly nested ⟨offset, text⟩ = .ok (first, after)) :
    Precedes offset text first after := by
  rw [curly_block nested starts] at success
  obtain ⟨⟨content, close⟩, readContent, success⟩ := bind_eq_ok success
  obtain ⟨⟨closeTrim, last⟩, readClose, success⟩ := bind_eq_ok success
  cases success
  obtain ⟨start, tail, rfl, rfl, takes⟩ := blockStart_yields.takesOnly _ _ _ _ starts
  have someStart : start ≠ [] := ne_nil_of_takes takes fun _ => ⟨_, rfl⟩
  have long := List.length_pos_iff.mpr someStart
  rw [List.length_append] at short
  cases tail with
  | nil => cases readContent
  | cons char tail =>
    rw [List.length_cons, blockContent_succ] at readContent
    obtain ⟨⟨⟨body, stopBody⟩, afterBody⟩, readBody, readContent⟩ := bind_eq_ok readContent
    obtain ⟨inside, others, textEq, rfl, stopsOthers, spelling⟩ :=
      reads _ _ _ _ _ (by omega) readBody
    have curly : stopBody = .closeTag ∨ stopBody = .elseTag :=
      (blockTail_cases stopsOthers readContent).imp id And.left
    rw [head?_of_stop? stopsOthers curly] at spelling
    have shortOthers : others.length ≤ size := by
      have length := congrArg List.length textEq
      rw [List.length_append] at length
      omega
    obtain ⟨programEq, others, rest, rfl, rfl, stopsRest, spellsOthers⟩ :=
      blockTail_spelling reads _ _ _ _ _ _ _ _ shortOthers stopsOthers readContent
    have readEnd : blockEnd opening.name
        ⟨offset + byteSize start + byteSize inside + byteSize others, rest⟩ =
          .ok (closeTrim, after) := by
      rw [blockEnd, if_pos stopsRest]
      exact readClose
    obtain ⟨closing, rest, rfl, rfl, takesEnd⟩ := blockEnd_takesOnly _ _ _ _ _ readEnd
    have upTo : offset + byteSize start + byteSize inside = offset + byteSize (start ++ inside) := by
      simp only [byteSize_append, Nat.add_assoc]
    have upToClose : offset + byteSize (start ++ inside) + byteSize others =
        offset + byteSize (start ++ inside ++ others) := by
      rw [byteSize_append (start ++ inside), Nat.add_assoc]
    have upToEnd : offset + byteSize (start ++ inside ++ others) + byteSize closing =
        offset + byteSize (start ++ inside ++ others ++ closing) := by
      rw [byteSize_append (start ++ inside ++ others), Nat.add_assoc]
    simp only [upTo, upToClose, upToEnd, Cursor.spanTo, programEq] at takesEnd spellsOthers ⊢
    refine ⟨start ++ inside ++ others ++ closing, rest, by simp [someStart], by simp [textEq], rfl,
      fun spelled back body _ _ more => ?_⟩
    exact .block takes spelling (spellsOthers _ rfl rfl) takesEnd more

theorem precedes_of_element (reads : ReadsSpellings size nested) {offset : Nat} {text : List Char}
    {first : Statement} {after : Cursor} (short : text.length ≤ size + 1)
    (starts : startsElement text = true)
    (success : element nested ⟨offset, text⟩ = .ok (first, after)) :
    Precedes offset text first after := by
  rw [element_eq nested starts] at success
  obtain ⟨⟨⟨tag, start⟩, afterStart⟩, readStart, success⟩ := bind_eq_ok success
  simp only at success
  split at success
  · next isAlone =>
    apply precedes_of_single
    rw [single_element starts, element_eq refuse starts, readStart]
    cases success
    exact if_pos isAlone
  · next notAlone =>
    obtain ⟨⟨⟨children, stop⟩, close⟩, readChildren, success⟩ := bind_eq_ok success
    simp only at success
    split at success
    · cases success
    · next closing =>
      rw [Classical.not_not] at closing
      subst closing
      obtain ⟨⟨done, last⟩, readEnd, success⟩ := bind_eq_ok success
      cases success
      obtain ⟨opening, tail, rfl, rfl, takes⟩ := elementStart_takesOnly _ _ _ _ readStart
      have someOpening : opening ≠ [] := ne_nil_of_takes takes fun _ => ⟨_, rfl⟩
      have long := List.length_pos_iff.mpr someOpening
      rw [List.length_append] at short
      obtain ⟨inside, rest, rfl, rfl, stops, spelling⟩ :=
        reads _ _ _ _ _ (by omega) readChildren
      have readEnd : elementEnd tag ⟨offset + byteSize opening + byteSize inside, rest⟩ =
          .ok ((), last) := by
        rw [elementEnd, if_pos stops]
        exact readEnd
      obtain ⟨closing, rest, rfl, rfl, takesEnd⟩ := elementEnd_takesOnly _ _ _ _ _ readEnd
      have head : (closing ++ rest).head? = some '<' := by
        obtain ⟨tail, equal⟩ := stop?_eq_closingTag stops
        rw [equal]
        rfl
      rw [head] at spelling
      have upTo : offset + byteSize opening + byteSize inside = offset + byteSize (opening ++ inside) := by
        simp only [byteSize_append, Nat.add_assoc]
      have upToEnd : offset + byteSize (opening ++ inside) + byteSize closing =
          offset + byteSize (opening ++ inside ++ closing) := by
        rw [byteSize_append (opening ++ inside), Nat.add_assoc]
      simp only [upTo, upToEnd, Cursor.spanTo] at takesEnd ⊢
      refine ⟨opening ++ inside ++ closing, rest, by simp [someOpening], by simp, rfl,
        fun spelled back body _ _ more => ?_⟩
      exact .element takes (Bool.eq_false_iff.mpr notAlone) spelling takesEnd more

/-- Every statement that is read can be put in front of content that is spelled behind it. -/
theorem statement_precedes (reads : ReadsSpellings size nested) {offset : Nat} {text : List Char}
    {first : Statement} {after : Cursor} (short : text.length ≤ size + 1)
    (goesOn : stop? text = none)
    (success : statement nested ⟨offset, text⟩ = .ok (first, after)) :
    Precedes offset text first after := by
  unfold statement at success
  split at success
  · next starts =>
    obtain ⟨tail, rfl⟩ := List.isPrefixOf_iff_prefix.mp starts
    simp only [List.cons_append, List.nil_append] at success goesOn short ⊢
    rcases curly_cases nested offset tail with ⟨isInline, equal⟩ | ⟨present, inside, rfl, equal⟩ |
      ⟨present, rest, rfl, noPartial, noDecorator, equal⟩ | ⟨cause, -, equal⟩
    · apply precedes_of_single
      rw [single_curly goesOn, curly_of_isInline refuse offset isInline, ← equal, success]
    · apply precedes_of_single
      rw [curly_remark] at success
      rw [single_curly goesOn, curly_remark, success]
    · have opens := equal ▸ success
      obtain ⟨⟨opening, afterStart⟩, readStart, -⟩ := bind_eq_ok opens
      have starts : blockStart ⟨offset, '{' :: '{' :: (tilde present ++ '#' :: rest)⟩ =
          .ok (opening, afterStart) := by
        rw [blockStart_hash offset present ⟨noPartial, noDecorator⟩]
        exact readStart
      exact precedes_of_block reads short starts success
    · rw [equal] at success
      cases success
  · next noCurly =>
    split at success
    · next starts =>
      apply precedes_of_single
      rw [single_comment starts]
      exact success
    · next noComment =>
      split at success
      · next starts => exact precedes_of_element reads short starts success
      · next noElement =>
        cases success
        apply precedes_of_text goesOn
        have noClosing : ['<', '/'].isPrefixOf text = false := by
          refine Bool.eq_false_iff.mpr fun closing => ?_
          obtain ⟨tail, rfl⟩ := List.isPrefixOf_iff_prefix.mp closing
          cases goesOn
        simp only [Cursor.startsWith, Bool.not_eq_true] at noCurly noComment noElement
        rw [endsText, noCurly, noComment, noElement, noClosing]
        rfl

theorem contentWithin_spelling : ∀ size, ReadsSpellings size (contentWithin size) := by
  intro size
  induction size with
  | zero =>
    intro offset text body stop after short success
    obtain rfl := List.eq_nil_of_length_eq_zero (Nat.le_zero.mp short)
    cases success
    exact ⟨[], [], rfl, rfl, rfl, .nil _ _⟩
  | succ size inductionHypothesis =>
    intro offset text body stop after short success
    rw [contentWithin] at success
    split at success
    · next stops =>
      cases success
      exact ⟨[], text, rfl, rfl, stops, .nil _ _⟩
    · next goesOn =>
      obtain ⟨⟨first, afterFirst⟩, readFirst, success⟩ := bind_eq_ok success
      obtain ⟨⟨⟨more, stopMore⟩, last⟩, readMore, success⟩ := bind_eq_ok success
      cases success
      obtain ⟨used, rest, someUsed, rfl, rfl, spells⟩ :=
        statement_precedes inductionHypothesis short goesOn readFirst
      have long := List.length_pos_iff.mpr someUsed
      rw [List.length_append] at short
      obtain ⟨spelled, back, rfl, rfl, stops, spelling⟩ :=
        inductionHypothesis _ _ _ _ _ (by omega) readMore
      refine ⟨used ++ spelled, back, by simp, by simp [Nat.add_assoc], stops, ?_⟩
      exact spells spelled back more rfl (endsRun_of_stop? stops) spelling

end Sound

end TagMigration.Reader
