/-
Scanning expressions and calls as they are read. A word, a number and a string are as many bytes
long as the reader takes characters for them. The loop over the arguments of a call gets further in
every round, because block params end behind a bar and no expression is empty.
-/
import TagMigration.Proofs.Reading.Call
import TagMigration.Proofs.Scanning.Basic
import TagMigration.Scanner.Call

namespace TagMigration.Scan

/-! ### Words and strings -/

section Words

variable {source : List Char}

/-- The place behind a text that stands in front. -/
theorem skip_length {offset : Nat} {text front back : List Char} (equal : text = front ++ back) :
    (⟨offset, text⟩ : Cursor).skip front.length = ⟨offset + byteSize front, back⟩ := by
  rw [equal, Cursor.skip_append]

/-- What stands before a token that is found, and the place behind the token. -/
theorem before_at {cursor : Cursor} {token head : List Char} (here : At source cursor)
    (found : before? token cursor.rest = some head) :
    slice source cursor.offset (cursor.offset + byteSize head) = .ok head ∧
      (cursor.skip (head.length + token.length)).offset =
        cursor.offset + byteSize head + byteSize token := by
  obtain ⟨offset, text⟩ := cursor
  obtain ⟨tail, equal⟩ := before?_eq_some found
  have behind := @skip_length offset _ _ _ equal
  rw [List.length_append, byteSize_append] at behind
  obtain rfl : text = head ++ (token ++ tail) := equal.trans (List.append_assoc _ _ _)
  exact ⟨slice_eq here, (congrArg Cursor.offset behind).trans (Nat.add_assoc _ _ _).symm⟩

theorem scans_blockParams : Scans source 0 1 (blockParams source) Reader.blockParams := by
  intro cursor here _
  refine Agrees.step (rest_eq here) ?_
  rw [Reader.blockParams, find]
  cases found : before? ['|'] cursor.rest with
  | none => exact agrees_fault here.isBoundary rfl
  | some inside =>
    obtain ⟨sliced, behind⟩ := before_at here found
    have behind : (cursor.skip (inside.length + 1)).offset = cursor.offset + byteSize inside + 1 :=
      behind
    refine Agrees.step sliced ?_
    simp only
    split
    · exact agrees_fault here.isBoundary rfl
    · exact agrees_ok (here.skip _) rfl behind.symm (by omega)

theorem scans_stringLiteral {quote : Char} (isQuote : quote = '"' ∨ quote = '\'') {offset : Nat}
    {text : List Char} (here : At source ⟨offset, quote :: text⟩) :
    Agrees source (offset + 1) (stringLiteral source quote offset)
      (Reader.stringLiteral quote ⟨offset, quote :: text⟩) := by
  have single : quote.utf8Size = 1 := by
    rcases isQuote with rfl | rfl <;> rfl
  have inside : At source ⟨offset + 1, text⟩ := by
    rw [← single]
    exact @At.behind _ _ [quote] _ here
  refine Agrees.step (rest_eq inside) ?_
  rw [Reader.stringLiteral]
  simp only [List.drop_succ_cons, List.drop_zero]
  cases Reader.quotedString? quote text with
  | none => exact agrees_fault here.isBoundary rfl
  | some found =>
    obtain ⟨value, size⟩ := found
    have after : ((⟨offset, quote :: text⟩ : Cursor).skip (size + 1)).offset =
        offset + 1 + byteSize (text.take size) := by
      simp only [Cursor.skip, List.take_succ_cons, byteSize_cons, single, Nat.add_assoc]
    refine agrees_ok (here.skip (size + 1)) ?_ after.symm ?_
    · rw [Cursor.spanTo, after]
    · rw [after]
      exact Nat.le_add_right _ _

/-- Digits that no name character follows are a number. -/
theorem atom_number {offset : Nat} {digits tail : List Char}
    (found : Reader.number? (digits ++ tail) = some digits)
    (ends : (Reader.nameRun tail).isEmpty = true) :
    Reader.atom ⟨offset, digits ++ tail⟩ =
      .ok (.literal (.number (String.ofList digits)) (some ⟨offset, offset + byteSize digits⟩),
        ⟨offset + byteSize digits, tail⟩) := by
  simp only [Reader.atom, found, Option.filter_some, List.drop_left, ends, if_true,
    Cursor.skip_append, Cursor.spanTo]

/-- Whatever is no number is a word, unless no name character stands there. -/
theorem agrees_word {offset : Nat} {first : Char} {letters : List Char}
    (here : At source ⟨offset, first :: letters⟩)
    (noNumber : (Reader.number? (first :: letters)).filter (fun digits =>
      (Reader.nameRun ((first :: letters).drop digits.length)).isEmpty) = none) :
    Agrees source (offset + 1) (word (first :: letters) offset)
      (Reader.atom ⟨offset, first :: letters⟩) := by
  have equal : first :: letters =
      Reader.nameRun (first :: letters) ++ (first :: letters).dropWhile Reader.isNameChar :=
    List.takeWhile_append_dropWhile.symm
  have after := @skip_length offset _ _ _ equal
  have there := here.skip (Reader.nameRun (first :: letters)).length
  rw [after] at there
  simp only [Reader.atom, noNumber, after, Cursor.spanTo, word]
  cases name : Reader.nameRun (first :: letters) with
  | nil => exact agrees_fault here.isBoundary rfl
  | cons head more =>
    rw [name] at there
    exact agrees_ok there rfl rfl (Nat.add_le_add_left (le_byteSize (by simp)) offset)

theorem scans_atom {offset : Nat} {text : List Char} (here : At source ⟨offset, text⟩)
    (nonempty : text ≠ []) :
    Agrees source (offset + 1) (atom source offset) (Reader.atom ⟨offset, text⟩) := by
  refine Agrees.step (rest_eq here) ?_
  obtain ⟨first, letters, rfl⟩ := List.exists_cons_of_ne_nil nonempty
  cases found : Reader.number? (first :: letters) with
  | none => exact agrees_word here (by rw [found]; rfl)
  | some digits =>
    obtain ⟨tail, equal, someDigits, -⟩ := Reader.number?_eq_some found
    have there : At source ⟨offset + byteSize digits, tail⟩ := (equal ▸ here).behind
    refine Agrees.step (rest_eq there) ?_
    simp only
    split
    · next ends =>
      rw [equal] at found ⊢
      rw [atom_number found ends]
      exact agrees_ok there rfl rfl (Nat.add_le_add_left (le_byteSize someDigits) offset)
    · next goesOn =>
      refine agrees_word here ?_
      rw [found, Option.filter_some, equal, List.drop_left, if_neg goesOn]

end Words

/-! ### Arguments -/

section Calls

variable {source : List Char}

theorem marked_eq (closer : Closer) {offset : Nat} {text : List Char}
    (here : At source ⟨offset, text⟩) :
    marked source closer text offset =
      .ok (decide (closer ≠ .parenthesis ∧ ('~' :: closer.chars).isPrefixOf text)) := by
  rw [marked]
  split
  · next starts =>
    obtain ⟨outside, starts⟩ := starts
    obtain ⟨tail, rfl⟩ := List.isPrefixOf_iff_prefix.mp starts
    have inside : At source ⟨offset + 1, tail⟩ := @At.behind _ _ ['~'] _ here
    rw [bind_ok (rest_eq inside)]
    refine congrArg Except.ok (Bool.eq_iff_iff.mpr ?_)
    rw [decide_eq_true_iff]
    exact ⟨fun closes => ⟨outside, closes⟩, fun both => both.2⟩
  · next absent =>
    refine congrArg Except.ok (decide_eq_false fun both => absent ⟨both.1, ?_⟩).symm
    obtain ⟨tail, rfl⟩ := List.isPrefixOf_iff_prefix.mp both.2
    rfl

theorem closer?_eq (closer : Closer) {cursor : Cursor} (here : At source cursor) :
    closer? source closer cursor.offset =
      .ok ((Reader.closer? closer cursor).map fun found => (found.1, found.2.offset)) := by
  have isMarked : marked source closer cursor.rest cursor.offset =
      .ok (decide (closer ≠ .parenthesis ∧ cursor.startsWith ('~' :: closer.chars))) :=
    marked_eq closer here
  rw [closer?, bind_ok (rest_eq here), bind_ok isMarked, Reader.closer?]
  by_cases both : closer ≠ .parenthesis ∧ cursor.startsWith ('~' :: closer.chars)
  · have starts : '~' :: closer.chars <+: cursor.rest := List.isPrefixOf_iff_prefix.mp both.2
    rw [if_pos (decide_eq_true both), if_pos both, Option.map_some, ← List.length_cons,
      skip_offset starts]
    exact congrArg (fun place => Except.ok (some (true, place))) (Nat.add_assoc _ 1 _)
  · rw [if_neg (by simpa using both), if_neg both]
    by_cases closes : cursor.startsWith closer.chars
    · rw [if_pos closes, Option.map_some, skip_offset (List.isPrefixOf_iff_prefix.mp closes)]
      exact if_pos closes
    · rw [if_neg closes]
      exact if_neg closes

theorem closer?_at {closer : Closer} {cursor after : Cursor} {trimAfter : Bool}
    (here : At source cursor) (closed : Reader.closer? closer cursor = some (trimAfter, after)) :
    At source after ∧ cursor.offset < after.offset := by
  obtain ⟨offset, text⟩ := cursor
  obtain ⟨back, rfl, rfl, -⟩ := Reader.closer?_eq_some closed
  obtain ⟨first, more, chars, -⟩ := closer.exists_stop
  rw [← List.append_assoc] at here
  exact ⟨here.behind, Nat.lt_add_of_pos_right (le_byteSize (by simp [chars]))⟩

section Arguments

variable {nested : Nat → Except Halt (Expression × Nat)}
  {read : Cursor → Except Fault (Expression × Cursor)} {bound begin : Nat}

/-- One round over the arguments: it is the last, or the loop goes on further behind. -/
theorem agrees_argument (nests : Scans source bound 1 nested read)
    (boundary : IsBoundary source begin) (closer : Closer) {rounds size : Nat} {cursor : Cursor}
    (here : At source cursor) (inside : bound ≤ cursor.offset)
    (goesOn : ∀ seen after, At source after → cursor.offset < after.offset →
      Agrees source (after.offset + 1)
        (arguments source nested closer begin rounds seen after.offset)
        (Reader.arguments read closer begin size seen after))
    (sawNamed : Bool) :
    Agrees source (cursor.offset + 1)
      (arguments source nested closer begin (rounds + 1) sawNamed cursor.offset)
      (Reader.arguments read closer begin (size + 1) sawNamed cursor) := by
  refine Agrees.step (skipBlanks_eq here) (Agrees.step (rest_eq here.skipBlanks) ?_)
  have blanks := blanks_le cursor
  rw [Reader.arguments]
  generalize isPlace : cursor.skipBlanks = place at blanks ⊢
  have stands : At source place := isPlace ▸ here.skipBlanks
  simp only
  split
  · exact agrees_fault boundary rfl
  · refine Agrees.step (closer?_eq closer stands) ?_
    cases closed : Reader.closer? closer place with
    | some found =>
      obtain ⟨trimAfter, after⟩ := found
      obtain ⟨there, further⟩ := closer?_at stands closed
      exact .ok there (Nat.lt_of_le_of_lt blanks further)
    | none =>
      simp only [Option.map_none]
      cases Reader.paramsIntro? place.rest with
      | some intro =>
        have words := skip_le place intro
        refine Agrees.bind (scans_blockParams _ (stands.skip intro) (Nat.zero_le _))
          fun params after there onward => ?_
        refine Agrees.step (goOn_eq (by omega)) (Agrees.bind
          (goesOn sawNamed after there (by omega)) fun more last theEnd further => ?_)
        exact .ok theEnd (by omega)
      | none =>
        simp only
        cases Reader.namedKey? place.rest with
        | some keyed =>
          obtain ⟨key, width⟩ := keyed
          have equals := skip_le place width
          have blanksToo := blanks_le (place.skip width)
          refine Agrees.step (skipBlanks_eq (stands.skip width)) (Agrees.bind
            (nests _ (stands.skip width).skipBlanks (by omega)) fun value after there onward => ?_)
          refine Agrees.step (goOn_eq (by omega)) (Agrees.bind
            (goesOn true after there (by omega)) fun more last theEnd further => ?_)
          exact .ok theEnd (by omega)
        | none =>
          simp only
          split
          · exact agrees_fault stands.isBoundary rfl
          · refine Agrees.bind (nests _ stands (by omega)) fun value after there onward => ?_
            refine Agrees.step (goOn_eq (by omega)) (Agrees.bind
              (goesOn false after there (by omega)) fun more last theEnd further => ?_)
            exact .ok theEnd (by omega)

theorem scans_arguments (nests : Scans source bound 1 nested read)
    (boundary : IsBoundary source begin) (closer : Closer) (rounds : Nat) :
    ∀ (size : Nat) (sawNamed : Bool) (cursor : Cursor), At source cursor →
      bound ≤ cursor.offset → cursor.rest.length < rounds → cursor.rest.length ≤ size →
      Agrees source (cursor.offset + 1)
        (arguments source nested closer begin rounds sawNamed cursor.offset)
        (Reader.arguments read closer begin size sawNamed cursor) := by
  induction rounds with
  | zero =>
    intro size sawNamed cursor here inside few
    exact absurd few (Nat.not_lt_zero _)
  | succ rounds inductionHypothesis =>
    intro size sawNamed cursor here inside few enough
    cases size with
    | zero =>
      obtain ⟨offset, text⟩ := cursor
      obtain rfl := List.length_eq_zero_iff.mp (Nat.le_zero.mp enough)
      exact Agrees.step (skipBlanks_eq here)
        (Agrees.step (rest_eq here.skipBlanks) (agrees_fault boundary rfl))
    | succ size =>
      -- a round that goes on leaves fewer characters, so rounds and size last for the others
      refine agrees_argument nests boundary closer here inside (fun seen after there further => ?_)
        sawNamed
      have shorter := here.length_lt there further
      exact inductionHypothesis size seen after there (by omega) (by omega) (by omega)

end Arguments

theorem scans_callParts {nested : Nat → Except Halt (Expression × Nat)}
    {read : Cursor → Except Fault (Expression × Cursor)} {bound rounds begin : Nat}
    (nests : Scans source bound 1 nested read) (few : source.length < rounds)
    (boundary : IsBoundary source begin) (closer : Closer) :
    Scans source bound 1 (callParts source rounds nested closer begin)
      (Reader.callParts read closer begin) := by
  intro cursor here inside
  have blanks := blanks_le cursor
  refine Agrees.step (skipBlanks_eq here) (Agrees.bind (nests _ here.skipBlanks (by omega))
    fun callee after there onward => Agrees.bind (scans_arguments nests boundary closer rounds _
      false after there (by omega) ?_ (Nat.le_refl _)) fun given last theEnd further => ?_)
  · exact Nat.lt_of_le_of_lt there.length_le few
  · exact .ok theEnd (by omega)

theorem scans_expressionWithin {rounds : Nat} (few : source.length < rounds) (depth : Nat) :
    ∀ (size : Nat) (cursor : Cursor), At source cursor → cursor.rest.length < depth →
      cursor.rest.length ≤ size →
      Agrees source (cursor.offset + 1) (expressionWithin source rounds depth cursor.offset)
        (Reader.expressionWithin size cursor) := by
  induction depth with
  | zero =>
    intro size cursor here shallow
    exact absurd shallow (Nat.not_lt_zero _)
  | succ depth inductionHypothesis =>
    rintro size ⟨offset, text⟩ here shallow enough
    refine Agrees.step (rest_eq here) ?_
    cases size with
    | zero =>
      obtain rfl := List.length_eq_zero_iff.mp (Nat.le_zero.mp enough)
      exact agrees_fault here.isBoundary rfl
    | succ size =>
      simp only
      split
      · exact agrees_fault here.isBoundary rfl
      · next tail =>
        have inside : At source ⟨offset + 1, tail⟩ := @At.behind _ _ ['('] _ here
        have nests : Scans source (offset + 1) 1 (expressionWithin source rounds depth)
            (Reader.expressionWithin size) := fun cursor there further => by
          have shorter := here.length_lt there further
          exact inductionHypothesis size cursor there (by omega) (by omega)
        refine Agrees.bind (scans_callParts nests few here.isBoundary .parenthesis _ inside
          (Nat.le_refl _)) fun parts after there onward => ?_
        simp only
        split
        · exact .ok there (Nat.le_of_succ_le onward)
        · exact agrees_fault here.isBoundary rfl
      · next first letters other =>
        rw [Reader.expressionWithin_char size offset other]
        split
        · next isQuote => exact scans_stringLiteral isQuote here
        · exact scans_atom here (by simp)

theorem scans_expression {rounds : Nat} (few : source.length < rounds) :
    Scans source 0 1 (expression source rounds) Reader.expression :=
  fun cursor here _ => scans_expressionWithin few rounds _ cursor here
    (Nat.lt_of_le_of_lt here.length_le few) (Nat.le_refl _)

theorem scans_tagCall {rounds begin : Nat} (few : source.length < rounds)
    (boundary : IsBoundary source begin) (closer : Closer) :
    Scans source 0 1 (tagCall source rounds closer begin) (Reader.tagCall closer begin) :=
  scans_callParts (scans_expression few) few boundary closer

end Calls

end TagMigration.Scan
