/-
Scanning text, comments and the tags behind content as they are read. A run of text ends where the
reader of text stops, whether an escaped curly tag was passed over or a character. Behind the tests
that tell what stands at a place, a scanner steps over fixed numbers of bytes: four for `else` and
one for a slash, because content has stopped in front of that word.
-/
import TagMigration.Proofs.Reading.ReadBack
import TagMigration.Proofs.Scanning.StartTag
import TagMigration.Scanner.Content

namespace TagMigration.Scan

/-! ### Text and comments -/

section Leaves

variable {source : List Char} {rounds : Nat}

/-- An escaped curly tag is passed over, and the reader's run goes on behind it. -/
theorem escapeEnd_eq {place : Nat} {inner : List Char}
    (here : At source ⟨place, ['\\', '{', '{'] ++ inner⟩) :
    ∃ after tail, escapeEnd source place = .ok after ∧ At source ⟨after, tail⟩ ∧ place < after ∧
      after + byteSize (Reader.textRun tail) =
        place + byteSize (Reader.textRun (['\\', '{', '{'] ++ inner)) := by
  have inside : At source ⟨place + 3, inner⟩ := here.behind
  have size := inside.size
  rw [escapeEnd, bind_ok (rest_eq inside), find]
  simp only at size ⊢
  have braces (run : List Char) : byteSize ('\\' :: '{' :: '{' :: run) = 3 + byteSize run := by
    simp only [byteSize_cons, ← Nat.add_assoc]
    rfl
  rw [List.cons_append, List.cons_append, List.singleton_append, Reader.textRun_escape, braces]
  cases found : before? ['}', '}'] inner with
  | none =>
    refine ⟨byteSize source, [], rfl, at_end source, by omega, ?_⟩
    rw [Reader.escapedRun_unended found, Reader.textRun, byteSize_nil]
    omega
  | some head =>
    obtain ⟨tail, rfl, run⟩ := Reader.escapedRun_before found
    have behind : place + 3 + byteSize (head ++ ['}', '}']) = place + 3 + byteSize head + 2 := by
      rw [byteSize_append]
      rfl
    have there := inside.behind
    rw [behind] at there
    refine ⟨place + 3 + byteSize head + 2, tail, rfl, there, by omega, ?_⟩
    rw [run, byteSize_append (head ++ ['}', '}']), ← behind]
    omega

/-- A run of text ends where the reader of text stops. -/
theorem textEnd_eq (start left : Nat) : ∀ (place : Nat) (chars : List Char),
    At source ⟨place, chars⟩ → chars.length < left → start ≤ place →
    (place = start → Reader.endsText chars = false) →
    textEnd source start left place = .ok (place + byteSize (Reader.textRun chars)) := by
  induction left with
  | zero =>
    intro place chars here short
    exact absurd short (Nat.not_lt_zero _)
  | succ left inductionHypothesis =>
    intro place chars here short onward first
    have size := here.size
    have again {after : Nat} {tail : List Char} (there : At source ⟨after, tail⟩)
        (further : place < after) :
        textEnd source start left after = .ok (after + byteSize (Reader.textRun tail)) := by
      have shorter := here.length_lt there further
      exact inductionHypothesis after tail there (by simp only at shorter; omega) (by omega)
        (by omega)
    rw [textEnd]
    cases chars with
    | nil =>
      rw [if_neg (by simp only [byteSize_nil] at size; omega), Reader.textRun]
      rfl
    | cons char more =>
      have positive := Char.utf8Size_pos char
      simp only [byteSize_cons] at size
      rw [if_pos (by omega), bind_ok (rest_eq here)]
      cases escape : ['\\', '{', '{'].isPrefixOf (char :: more) with
      | true =>
        obtain ⟨inner, equal⟩ := List.isPrefixOf_iff_prefix.mp escape
        rw [← equal] at here ⊢
        obtain ⟨after, tail, passed, there, further, run⟩ := escapeEnd_eq here
        rw [if_pos rfl, bind_ok passed, bind_ok (goOn_eq further), again there further, run]
      | false =>
        have there : At source ⟨place + char.utf8Size, more⟩ := @At.behind _ _ [char] _ here
        have further : place < place + char.utf8Size := by omega
        rw [if_neg Bool.false_ne_true, Reader.textRun_plain escape]
        by_cases ends : Reader.endsText (char :: more) = true
        · have passed : start < place := by
            refine Nat.lt_of_le_of_ne onward fun equal => ?_
            rw [first equal.symm] at ends
            cases ends
          rw [if_pos ⟨passed, ends⟩, if_pos ends]
          rfl
        · rw [if_neg (fun both => ends both.2), if_neg ends]
          simp only [List.head?_cons, Option.map_some, Option.getD_some]
          rw [bind_ok (goOn_eq further), again there further, byteSize_cons, Nat.add_assoc]

theorem scans_text (few : source.length < rounds) {cursor : Cursor} (here : At source cursor)
    (goesOn : Reader.stop? cursor.rest = none) (plain : Reader.endsText cursor.rest = false) :
    Agrees source (cursor.offset + 1) (text source rounds cursor.offset)
      (.ok (Reader.text cursor)) := by
  obtain ⟨place, chars⟩ := cursor
  have ends := textEnd_eq place rounds place chars here (Nat.lt_of_le_of_lt here.length_le few)
    (Nat.le_refl place) fun _ => plain
  obtain ⟨back, equal, -⟩ := Reader.exists_textRun chars
  have behind := @skip_length place _ _ _ equal
  have there := here.skip (Reader.textRun chars).length
  rw [Reader.text]
  simp only
  rw [behind] at there ⊢
  refine Agrees.step ends (Agrees.step (slice_eq (equal ▸ here)) ?_)
  exact agrees_ok there rfl rfl
    (Nat.add_le_add_left (le_byteSize (Reader.textRun_ne_nil goesOn plain)) place)

theorem scans_comment {cursor : Cursor} (here : At source cursor)
    (opens : ['<', '!', '-', '-'] <+: cursor.rest) :
    Agrees source (cursor.offset + 1) (comment source cursor.offset) (Reader.comment cursor) := by
  have inside := here.skip 4
  have behind : (cursor.skip 4).offset = cursor.offset + 4 := skip_ascii opens rfl rfl
  rw [comment, ← behind, Reader.comment]
  refine Agrees.step (rest_eq inside) ?_
  simp only
  rw [find]
  cases found : before? ['-', '-', '>'] (cursor.skip 4).rest with
  | none => exact agrees_fault here.isBoundary rfl
  | some value =>
    obtain ⟨sliced, ending⟩ := before_at inside found
    have ending : ((cursor.skip 4).skip (value.length + 3)).offset =
        (cursor.skip 4).offset + byteSize value + 3 := ending
    refine Agrees.step sliced (agrees_ok (inside.skip _) ?_ ending.symm (by omega))
    rw [Cursor.spanTo, ending]

/-! ### Tags around content -/

/-- A curly tag stands here, and its first word is `word`. -/
def FirstWord (word : List Char) (cursor : Cursor) : Prop :=
  ['{', '{'] <+: cursor.rest ∧ word <+: (cursor.skip 2).eatTilde.2.skipBlanks.rest

theorem firstWord_tagLead (offset : Nat) {present : Bool} {blanks letters tail : List Char}
    {first : Char} (blank : ∀ char ∈ blanks, isBlank char = true) (word : isBlank first = false)
    (other : first ≠ '~') :
    FirstWord (first :: letters)
      ⟨offset, Reader.tagLead present blanks (first :: letters) ++ tail⟩ := by
  have unmarked : (first :: letters ++ tail).head? ≠ some '~' := fun head =>
    other (Option.some.inj head)
  have halts : Halts isBlank (first :: letters ++ tail) := halts_cons.mpr word
  rw [Reader.tagLead_append]
  refine ⟨⟨_, rfl⟩, ?_⟩
  rw [Reader.skip_braces fun _ => Reader.head?_blanks blank unmarked,
    Cursor.skipBlanks_append _ blank halts]
  exact List.prefix_append _ _

theorem firstWord_else {cursor : Cursor} (stops : Reader.stop? cursor.rest = some .elseTag) :
    FirstWord Reader.elseLetters cursor := by
  obtain ⟨offset, chars⟩ := cursor
  obtain ⟨present, blanks, tail, rfl, blank, -⟩ := Reader.stop?_eq_elseTag stops
  exact firstWord_tagLead offset blank (by decide) (by decide)

theorem firstWord_slash {cursor : Cursor} (stops : Reader.stop? cursor.rest = some .closeTag) :
    FirstWord ['/'] cursor := by
  obtain ⟨offset, chars⟩ := cursor
  obtain ⟨present, blanks, tail, rfl, blank⟩ := Reader.stop?_eq_closeTag stops
  exact firstWord_tagLead offset blank (by decide) (by decide)

/-- The place in a curly tag behind its first word and the blanks around it. -/
def wordEnd (size : Nat) (cursor : Cursor) : Cursor :=
  ((cursor.skip 2).eatTilde.2.skipBlanks.skip size).skipBlanks

theorem tagWord_eq {cursor : Cursor} (here : At source cursor) {word : List Char} {size : Nat}
    (stands : FirstWord word cursor) (length : word.length = size) (ascii : byteSize word = size) :
    tagWord source size cursor.offset =
        .ok ((cursor.skip 2).eatTilde.1, (wordEnd size cursor).offset) ∧
      At source (wordEnd size cursor) ∧ cursor.offset < (wordEnd size cursor).offset := by
  obtain ⟨eaten, inside, onward⟩ := braces_at here stands.1
  have behind := skip_ascii stands.2 length ascii
  have there := inside.skipBlanks.skip size
  have blanks := blanks_le (cursor.skip 2).eatTilde.2
  have further := blanks_le ((cursor.skip 2).eatTilde.2.skipBlanks.skip size)
  refine ⟨?_, there.skipBlanks, ?_⟩
  · rw [tagWord, bind_ok eaten]
    simp only
    rw [bind_ok (skipBlanks_eq inside), ← behind, bind_ok (skipBlanks_eq there)]
    rfl
  · rw [wordEnd]
    omega

theorem scans_blockClose (name : String) {cursor : Cursor} (here : At source cursor)
    (stops : Reader.stop? cursor.rest = some .closeTag) :
    Agrees source (cursor.offset + 1) (blockClose source name cursor.offset)
      (Reader.blockClose name cursor) := by
  obtain ⟨passed, inside, onward⟩ := @tagWord_eq _ _ here _ 1 (firstWord_slash stops) rfl rfl
  rw [Reader.blockClose]
  unfold wordEnd at passed inside onward
  generalize (cursor.skip 2).eatTilde = marked at passed inside onward ⊢
  obtain ⟨trimBefore, start⟩ := marked
  refine Agrees.step passed (Agrees.step (rest_eq inside) ?_)
  simp only at inside onward ⊢
  generalize (start.skipBlanks.skip 1).skipBlanks = place at inside onward ⊢
  refine Agrees.choice (fun _ => agrees_fault here.isBoundary rfl) fun _ => ?_
  have named := inside.skip (Reader.nameRun place.rest).length
  have behind : (place.skip (Reader.nameRun place.rest).length).offset =
      place.offset + byteSize (Reader.nameRun place.rest) :=
    skip_offset (List.takeWhile_prefix _)
  have blanks := blanks_le (place.skip (Reader.nameRun place.rest).length)
  rw [← behind]
  generalize place.skip (Reader.nameRun place.rest).length = last at named behind blanks ⊢
  refine Agrees.step (skipBlanks_eq named) (Agrees.step (eat_tilde named.skipBlanks)
    (Agrees.step (eat_eq named.skipBlanks.eatTilde ['}', '}']) ?_))
  have marker := eatTilde_le last.skipBlanks
  rw [Reader.closer?_braces, Cursor.eat?]
  cases last.skipBlanks.eatTilde.2.startsWith ['}', '}'] with
  | true =>
    have ending := skip_le last.skipBlanks.eatTilde.2 ['}', '}'].length
    simp only [if_true, Option.map_some]
    refine Agrees.choice (fun _ => ?_) fun _ => agrees_fault here.isBoundary rfl
    exact .ok (named.skipBlanks.eatTilde.skip _) (by omega)
  | false => exact agrees_fault here.isBoundary rfl

theorem scans_endTag (tag : String) {cursor : Cursor} (here : At source cursor)
    (stops : Reader.stop? cursor.rest = some .closingTag) :
    Agrees source (cursor.offset + 1) (endTag source tag cursor.offset)
      (Reader.endTag tag cursor) := by
  have opens : ['<', '/'] <+: cursor.rest := by
    obtain ⟨tail, equal⟩ := Reader.stop?_eq_closingTag stops
    exact ⟨tail, equal.symm⟩
  have inside := here.skip 2
  have opened : (cursor.skip 2).offset = cursor.offset + 2 := skip_ascii opens rfl rfl
  rw [endTag, Reader.endTag, ← opened]
  generalize cursor.skip 2 = place at inside opened ⊢
  refine Agrees.step (rest_eq inside) ?_
  simp only
  cases found : Reader.tagName? place.rest with
  | none => exact agrees_fault here.isBoundary rfl
  | some run =>
    obtain ⟨-, tail, equal⟩ := Reader.tagName?_eq_some found
    have named := inside.skip run.length
    have behind : (place.skip run.length).offset = place.offset + byteSize run :=
      skip_offset ⟨tail, equal.symm⟩
    have blanks := blanks_le (place.skip run.length)
    simp only
    rw [← behind]
    generalize place.skip run.length = last at named behind blanks ⊢
    refine Agrees.step (skipBlanks_eq named) (Agrees.step (eat_eq named.skipBlanks ['>']) ?_)
    rw [Cursor.eat?]
    split
    · have ending := skip_le last.skipBlanks ['>'].length
      simp only [if_true]
      refine Agrees.choice (fun _ => ?_) fun _ => agrees_fault here.isBoundary rfl
      exact .ok (named.skipBlanks.skip _) (by omega)
    · exact agrees_fault here.isBoundary rfl

end Leaves

end TagMigration.Scan
