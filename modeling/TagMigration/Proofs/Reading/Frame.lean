/-
Blocks and elements as frames around content. The reader of a block is the reader of its
opening tag, of content, of what follows the first `else`, and of its closing tag; the reader
of an element is that of its start tag, of content and of its end tag. The pieces are the
readers that are known not to look past what they take, so these equations reduce
what is to be said about blocks and elements to what is said about their content.
-/
import TagMigration.Proofs.Reading.Run

namespace TagMigration.Reader

/-! ### Blocks -/

/-- What stands in a block after its program: nothing up to the closing tag, a plain inverse, or a
chained block. -/
def blockTail (nested : ContentReader) (size : Nat) (opening : BlockOpening) (program : Program)
    (stop : Stop) (cursor : Cursor) : Except Fault (BlockContent × Cursor) :=
  if stop ≠ .elseTag then do
    unclosed opening stop cursor
    .ok (⟨program, none, .none, none⟩, cursor)
  else
    match closer? .braces (elseWord cursor).2 with
    | some (trimAfter, after) => do
      let ((inverse, stop), last) ← nested after
      unclosed opening stop last
      .ok (⟨program, some ⟨inverse, [], false⟩, ⟨(elseWord cursor).1, trimAfter⟩,
        some (cursor.spanTo after)⟩, last)
    | none => do
      let (chained, after) ← blockOpening cursor (elseWord cursor).1 .unnamedChain (elseWord cursor).2
      let (content, last) ← blockContent nested size chained after
      .ok (⟨program, some ⟨[.block (chained.tags content.elseTrim content.elseSpan
        (some (cursor.spanTo last))) content.program content.inverse], [], true⟩, .none, none⟩, last)

theorem blockContent_succ (nested : ContentReader) (size : Nat) (opening : BlockOpening)
    (cursor : Cursor) :
    blockContent nested (size + 1) opening cursor = (do
      let ((body, stop), after) ← nested cursor
      blockTail nested size opening ⟨body, opening.parts.params, false⟩ stop after) := by
  rw [blockContent]
  rfl

theorem unclosed_eq_ok {opening : BlockOpening} {stop : Stop} {cursor : Cursor}
    (success : unclosed opening stop cursor = .ok ()) : stop = .closeTag := by
  cases stop <;> first | rfl | cases success

/-- A block without an inverse. -/
theorem blockTail_close (nested : ContentReader) (size : Nat) (opening : BlockOpening)
    (program : Program) (cursor : Cursor) :
    blockTail nested size opening program .closeTag cursor =
      .ok (⟨program, none, .none, none⟩, cursor) := rfl

/-- A plain inverse behind its `else` tag. -/
theorem blockTail_elseTag (nested : ContentReader) (size : Nat) (opening : BlockOpening)
    (program : Program) {cursor after : Cursor} {trim : Trim}
    (read : elseTag cursor = .ok (trim, after)) :
    blockTail nested size opening program .elseTag cursor = (do
      let ((inverse, stop), last) ← nested after
      unclosed opening stop last
      .ok (⟨program, some ⟨inverse, [], false⟩, trim, some (cursor.spanTo after)⟩, last)) := by
  unfold elseTag at read
  split at read
  · split at read
    · next found =>
      cases read
      simp only [blockTail, found]
      rfl
    · cases read
  · cases read

/-- A chained block behind the `else` tag that opens it. -/
theorem blockTail_elseOpening (nested : ContentReader) (size : Nat) (opening : BlockOpening)
    (program : Program) {cursor after : Cursor} {chained : BlockOpening}
    (read : elseOpening cursor = .ok (chained, after)) :
    blockTail nested size opening program .elseTag cursor = (do
      let (content, last) ← blockContent nested size chained after
      .ok (⟨program, some ⟨[.block (chained.tags content.elseTrim content.elseSpan
        (some (cursor.spanTo last))) content.program content.inverse], [], true⟩, .none, none⟩,
        last)) := by
  unfold elseOpening at read
  split at read
  · next tests =>
    simp only [blockTail, tests.2, read]
    rfl
  · cases read

/-- What can follow the program of a block. -/
theorem blockTail_cases {nested : ContentReader} {size : Nat} {opening : BlockOpening}
    {program : Program} {stop : Stop} {cursor last : Cursor} {content : BlockContent}
    (stops : stop? cursor.rest = some stop)
    (success : blockTail nested size opening program stop cursor = .ok (content, last)) :
    stop = .closeTag ∨ (stop = .elseTag ∧
      ((∃ trim after, elseTag cursor = .ok (trim, after)) ∨
        ∃ chained after, elseOpening cursor = .ok (chained, after))) := by
  unfold blockTail at success
  split at success
  · obtain ⟨closed, isClosed, -⟩ := bind_eq_ok success
    exact .inl (unclosed_eq_ok isClosed)
  · next isElse =>
    rw [Classical.not_not] at isElse
    subst isElse
    refine .inr ⟨rfl, ?_⟩
    split at success
    · next trimAfter after found =>
      refine .inl ⟨⟨(elseWord cursor).1, trimAfter⟩, after, ?_⟩
      rw [elseTag, if_pos stops, found]
    · next found =>
      obtain ⟨⟨chained, after⟩, read, -⟩ := bind_eq_ok success
      refine .inr ⟨chained, after, ?_⟩
      rw [elseOpening, if_pos ⟨stops, found⟩, read]

/-- The tags of a block that has its closing tag. -/
def BlockOpening.closed (opening : BlockOpening) (elseTrim : Trim) (elseSpan : Option Span)
    (closeTrim : Trim) (span closeSpan : Span) : BlockTags :=
  { opening.tags elseTrim elseSpan (some span) with
    closeTrim := closeTrim, closeSpan := some closeSpan }

/-- A block is its opening tag, its content and its closing tag. -/
theorem curly_block (nested : ContentReader) {offset : Nat} {text : List Char} {after : Cursor}
    {opening : BlockOpening} (read : blockStart ⟨offset, text⟩ = .ok (opening, after)) :
    curly nested ⟨offset, text⟩ = (do
      let (content, close) ← blockContent nested after.rest.length opening after
      let (closeTrim, last) ← blockClose opening.name close
      .ok (.block (opening.closed content.elseTrim content.elseSpan closeTrim
        ⟨offset, last.offset⟩ (close.spanTo last)) content.program content.inverse, last)) := by
  obtain ⟨present, tail, rfl, plain⟩ := blockStart_eq_ok read
  rw [blockStart_hash offset present plain] at read
  rw [curly_hash nested offset present plain, block]
  show (blockOpening ⟨offset, []⟩ present .unnamedBlock _ >>= _) = _
  rw [read]
  rfl

theorem statement_curly (nested : ContentReader) (offset : Nat) (tail : List Char) :
    statement nested ⟨offset, '{' :: '{' :: tail⟩ = curly nested ⟨offset, '{' :: '{' :: tail⟩ := rfl

/-- What `single` reads is read as a statement by any reader of content. -/
theorem statement_of_single (nested : ContentReader) {offset : Nat} {text : List Char}
    {found : Statement} {after : Cursor}
    (success : single ⟨offset, text⟩ = .ok (found, after)) :
    stop? text = none ∧ statement nested ⟨offset, text⟩ = .ok (found, after) := by
  rcases single_starts success with ⟨tail, rfl, goesOn⟩ | starts | starts
  · refine ⟨goesOn, ?_⟩
    rw [single_curly goesOn] at success
    rw [statement_curly]
    rcases curly_cases refuse offset tail with ⟨isInline, equal⟩ | ⟨present, inside, rfl, equal⟩ |
      ⟨present, rest, -, -, -, equal⟩ | ⟨cause, -, equal⟩
    · rw [curly_of_isInline nested offset isInline, ← equal, success]
    · rw [curly_remark] at success ⊢
      exact success
    · rw [equal] at success
      exact absurd success block_refuse
    · rw [equal] at success
      cases success
  · obtain ⟨rest, rfl⟩ := List.isPrefixOf_iff_prefix.mp starts
    exact ⟨rfl, success⟩
  · refine ⟨stop?_element starts, ?_⟩
    rw [single_element starts, element_eq refuse starts] at success
    rw [statement_element nested starts, element_eq nested starts]
    obtain ⟨⟨⟨tag, start⟩, last⟩, readStart, success⟩ := bind_eq_ok success
    rw [readStart]
    simp only at success
    split at success
    · next alone =>
      cases success
      exact if_pos alone
    · cases success

/-! ### The pieces at another place -/

theorem Yields.takesOnly {Result : Type} {reader : Cursor → Except Fault (Result × Cursor)}
    {property : Nat → List Char → Result → Prop} (yields : Yields reader property) :
    TakesOnly reader := by
  intro offset text value after success
  obtain ⟨used, rest, textEq, afterEq, takes, -⟩ := yields offset text value after success
  exact ⟨used, rest, textEq, afterEq, takes⟩

section Relocate

variable {Result : Type} {reader : Cursor → Except Fault (Result × Cursor)}
  {move : Nat → Result → Result}
  (shift : ∀ distance cursor, reader (cursor.shift distance) =
    movedRead (move distance) distance (reader cursor))

include shift

/-- What is read at one offset is something read at the beginning, moved there. -/
theorem exists_base {offset : Nat} {text : List Char} {value : Result} {after : Cursor}
    (success : reader ⟨offset, text⟩ = .ok (value, after)) :
    ∃ base last, reader ⟨0, text⟩ = .ok (base, last) ∧ value = move offset base ∧
      after = last.shift offset := by
  have moved := shift offset ⟨0, text⟩
  rw [Cursor.shift] at moved
  simp only [Nat.zero_add] at moved
  rw [success] at moved
  cases base : reader ⟨0, text⟩ with
  | error fault =>
    rw [base] at moved
    cases moved
  | ok result =>
    rw [base, movedRead_ok, Except.ok.injEq, Prod.mk.injEq] at moved
    exact ⟨result.1, result.2, rfl, moved.1, moved.2⟩

/-- What is read at the beginning is read at every offset, moved there. -/
theorem read_moved {text rest : List Char} {base : Result} {size : Nat}
    (success : reader ⟨0, text⟩ = .ok (base, ⟨0 + size, rest⟩)) (place : Nat) :
    reader ⟨place, text⟩ = .ok (move place base, ⟨place + size, rest⟩) := by
  have there := shift place ⟨0, text⟩
  rw [success, movedRead_ok, Cursor.shift, Cursor.shift] at there
  simp only [Nat.zero_add] at there
  rw [there, Nat.add_comm]

/-- What a reader takes at one offset it takes at every offset, moved there. -/
theorem Takes.relocate (only : TakesOnly reader) {offset : Nat} {text : List Char} {value : Result}
    (takes : Takes reader offset text value) :
    ∃ base, value = move offset base ∧ ∀ other, Takes reader other text (move other base) := by
  obtain ⟨base, last, success, valueEq, afterEq⟩ := exists_base shift (takes [])
  obtain ⟨used, rest, textEq, rfl, takesBase⟩ := only _ _ _ _ success
  obtain rfl : [] = rest := congrArg Cursor.rest afterEq
  rw [List.append_nil, List.append_nil] at textEq
  subst textEq
  exact ⟨base, valueEq, fun other rest => read_moved shift (takesBase rest) other⟩

end Relocate

end TagMigration.Reader
