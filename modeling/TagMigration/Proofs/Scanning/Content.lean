/-
Scanning content as it is read. Nested content is scanned like the content that is around it and
gets at least as far as where it began, so every statement gets further, and with it every round of
the loop over content.
-/
import TagMigration.Proofs.Scanning.Leaf

namespace TagMigration.Scan

/-! ### Statements with content -/

/-- From `bound` on, nested content is scanned as it is read, and no more than `size` characters
are left, so that the reader stops only where content stops. -/
structure Nests (source : List Char) (bound size : Nat) (nested : ContentScanner)
    (read : Reader.ContentReader) : Prop where
  agrees : Scans source bound 0 nested read
  short : ∀ cursor, At source cursor → bound ≤ cursor.offset → cursor.rest.length ≤ size
  spells : Reader.ReadsSpellings size read
  ends : ∀ offset, read ⟨offset, []⟩ = .ok (([], .endOfInput), ⟨offset, []⟩)

section Content

variable {source : List Char} {rounds bound size : Nat} {nested : ContentScanner}
  {read : Reader.ContentReader}

theorem Nests.bind {α : Type} {least : Nat}
    {next : (List Statement × Reader.Stop) × Nat → Except Halt (α × Nat)}
    {follow : (List Statement × Reader.Stop) × Cursor → Except Fault (α × Cursor)}
    (nests : Nests source bound size nested read) {cursor : Cursor} (here : At source cursor)
    (inside : bound ≤ cursor.offset)
    (second : ∀ body stop after, At source after → cursor.offset ≤ after.offset →
      Reader.stop? after.rest = some stop →
      Agrees source least (next ((body, stop), after.offset)) (follow ((body, stop), after))) :
    Agrees source least (nested cursor.offset >>= next) (read cursor >>= follow) := by
  refine Agrees.bind_read (nests.agrees cursor here inside)
    fun content after success there onward => second _ _ after there onward ?_
  obtain ⟨spelled, rest, -, rfl, stops, -⟩ :=
    nests.spells _ _ _ _ _ (nests.short cursor here inside) success
  exact stops

theorem agrees_unclosed {α : Type} {least : Nat} {opening : Reader.BlockOpening}
    (boundary : IsBoundary source opening.begin) (stop : Reader.Stop) {cursor : Cursor}
    (here : At source cursor) {next : Unit → Except Halt (α × Nat)}
    {follow : Unit → Except Fault (α × Cursor)}
    (agrees : Agrees source least (next ()) (follow ())) :
    Agrees source least (unclosed opening stop cursor.offset >>= next)
      (Reader.unclosed opening stop cursor >>= follow) := by
  cases stop with
  | closeTag => exact agrees
  | elseTag => exact agrees_fault here.isBoundary rfl
  | endOfInput => exact agrees_fault boundary rfl
  | closingTag => exact agrees_fault here.isBoundary rfl

theorem scans_blockOpening (few : source.length < rounds) {begin : Cursor}
    (boundary : IsBoundary source begin.offset) (trimBefore : Bool) {unnamed : Cause}
    (plain : Error.isRefusal unnamed = false) :
    Scans source 0 1 (blockOpening source rounds begin.offset trimBefore unnamed)
      (Reader.blockOpening begin trimBefore unnamed) := by
  intro cursor here _
  refine Agrees.bind (scans_tagCall few boundary .braces _ here (Nat.zero_le _))
    fun parts after there onward => ?_
  simp only
  cases parts.call.callee.name? with
  | none => exact agrees_fault boundary plain
  | some name => exact .ok there onward

theorem elseEnd_eq {cursor : Cursor} (here : At source cursor) :
    elseEnd source cursor.offset =
      .ok ((Reader.closer? .braces cursor).map fun found => (found.1, found.2.offset)) := by
  rw [elseEnd, bind_ok (rest_eq here), Reader.closer?]
  by_cases marked : ['~', '}', '}'].isPrefixOf cursor.rest = true
  · have both : Closer.braces ≠ .parenthesis ∧ cursor.startsWith ('~' :: Closer.braces.chars) =
        true := ⟨by decide, marked⟩
    rw [if_pos marked, if_pos both, Option.map_some]
    exact congrArg (fun place => Except.ok (some (true, place)))
      (skip_ascii (List.isPrefixOf_iff_prefix.mp marked) rfl rfl).symm
  · have unmarked : ¬ (Closer.braces ≠ .parenthesis ∧
        cursor.startsWith ('~' :: Closer.braces.chars) = true) := fun both => marked both.2
    rw [if_neg marked, if_neg unmarked]
    by_cases closes : ['}', '}'].isPrefixOf cursor.rest = true
    · rw [if_pos closes, if_pos (show cursor.startsWith Closer.braces.chars = true from closes),
        Option.map_some]
      exact congrArg (fun place => Except.ok (some (false, place)))
        (skip_ascii (List.isPrefixOf_iff_prefix.mp closes) rfl rfl).symm
    · rw [if_neg closes, if_neg (show ¬ cursor.startsWith Closer.braces.chars = true from closes)]
      rfl

theorem elseWord_eq (cursor : Cursor) :
    Reader.elseWord cursor = ((cursor.skip 2).eatTilde.1, wordEnd 4 cursor) := by
  unfold Reader.elseWord wordEnd
  generalize (cursor.skip 2).eatTilde = marked
  cases marked
  rfl

/-- The content of one block of a chain; the rest of the chain goes on further behind. -/
theorem agrees_blockContent (few : source.length < rounds)
    (nests : Nests source bound size nested read) {left fuel : Nat}
    {opening : Reader.BlockOpening} {cursor : Cursor} (here : At source cursor)
    (inside : bound ≤ cursor.offset) (boundary : IsBoundary source opening.begin)
    (goesOn : ∀ chained after, At source after → cursor.offset < after.offset →
      IsBoundary source chained.begin →
      Agrees source after.offset (blockContent source rounds nested left chained after.offset)
        (Reader.blockContent read fuel chained after)) :
    Agrees source cursor.offset
      (blockContent source rounds nested (left + 1) opening cursor.offset)
      (Reader.blockContent read (fuel + 1) opening cursor) := by
  rw [Reader.blockContent]
  refine nests.bind here inside fun body stop place there onward stops => ?_
  simp only
  refine Agrees.choice (fun _ => ?_) fun isElse => ?_
  · exact agrees_unclosed boundary stop there (.ok there onward)
  obtain rfl := Classical.not_not.mp isElse
  obtain ⟨passed, insideElse, further⟩ := @tagWord_eq _ _ there _ 4 (firstWord_else stops) rfl rfl
  rw [elseWord_eq]
  refine Agrees.step passed (Agrees.step (elseEnd_eq insideElse) ?_)
  simp only
  generalize wordEnd 4 place = word at insideElse further ⊢
  cases closed : Reader.closer? .braces word with
  | some found =>
    obtain ⟨trimAfter, after⟩ := found
    obtain ⟨behind, ending⟩ := closer?_at insideElse closed
    have afterElse : bound ≤ after.offset := by omega
    refine nests.bind behind afterElse fun inverse stop last theEnd final _ => ?_
    have final : after.offset ≤ last.offset := final
    exact agrees_unclosed boundary stop theEnd (.ok theEnd (by omega))
  | none =>
    refine Agrees.bind_read (scans_blockOpening few there.isBoundary _ rfl word insideElse
      (Nat.zero_le _)) fun chained after success behind ending => ?_
    have begins : IsBoundary source chained.begin := by
      rw [(Reader.blockOpening_eq_ok success).2.2.2.2]
      exact there.isBoundary
    refine Agrees.bind (goesOn chained after behind (by omega) begins)
      fun content last theEnd final => ?_
    exact .ok theEnd (by omega)

theorem scans_blockContent (few : source.length < rounds)
    (nests : Nests source bound size nested read) (left : Nat) :
    ∀ (fuel : Nat) (opening : Reader.BlockOpening) (cursor : Cursor), At source cursor →
      bound ≤ cursor.offset → IsBoundary source opening.begin → cursor.rest.length < left →
      cursor.rest.length ≤ fuel →
      Agrees source cursor.offset
        (blockContent source rounds nested left opening cursor.offset)
        (Reader.blockContent read fuel opening cursor) := by
  induction left with
  | zero =>
    intro fuel opening cursor here inside boundary short
    exact absurd short (Nat.not_lt_zero _)
  | succ left inductionHypothesis =>
    intro fuel opening cursor here inside boundary short enough
    cases fuel with
    | zero =>
      -- nothing is left, so the nested content ends with the input
      obtain ⟨offset, chars⟩ := cursor
      obtain rfl := List.length_eq_zero_iff.mp (Nat.le_zero.mp enough)
      have ended : nested offset = .ok (([], .endOfInput), offset) := by
        have agrees := nests.agrees _ here inside
        rw [nests.ends] at agrees
        exact agrees.eq_ok
      exact Agrees.step ended (agrees_fault boundary rfl)
    | succ fuel =>
      refine agrees_blockContent few nests here inside boundary
        fun chained after there further begins => ?_
      have shorter := here.length_lt there further
      exact inductionHypothesis fuel chained after there (by omega) begins (by omega) (by omega)

theorem scans_block (few : source.length < rounds) (nests : Nests source bound size nested read)
    {begin : Cursor} (boundary : IsBoundary source begin.offset) (trimBefore : Bool) :
    Scans source bound 1 (block source rounds nested begin.offset trimBefore)
      (Reader.block read begin trimBefore) := by
  intro cursor here inside
  refine Agrees.bind_read (scans_blockOpening few boundary trimBefore rfl cursor here
    (Nat.zero_le _)) fun opening after success there onward => ?_
  have begins : IsBoundary source opening.begin := by
    rw [(Reader.blockOpening_eq_ok success).2.2.2.2]
    exact boundary
  refine Agrees.bind_read (scans_blockContent few nests rounds _ opening after there (by omega)
    begins (Nat.lt_of_le_of_lt there.length_le few) (Nat.le_refl _))
    fun content close success theClose further => ?_
  have stops := Reader.blockContent_stops nests.spells (nests.short after there (by omega)) success
  refine Agrees.bind (scans_blockClose opening.name theClose stops) fun trim last theEnd final => ?_
  exact .ok theEnd (by omega)

/-- An inline tag as a statement. -/
theorem scans_inline (few : source.length < rounds) {cursor : Cursor} (here : At source cursor)
    (braces : ['{', '{'] <+: cursor.rest) :
    Agrees source (cursor.offset + 1)
      (do
        let (tag, after) ← mustache source rounds cursor.offset
        .ok (Statement.mustache tag, after))
      (do
        let (tag, after) ← Reader.mustache cursor
        .ok (Statement.mustache tag, after)) :=
  Agrees.bind (scans_mustache few here braces) fun _ _ there onward => .ok there onward

theorem scans_curly (few : source.length < rounds) {cursor : Cursor} (here : At source cursor)
    (nests : Nests source (cursor.offset + 1) size nested read)
    (braces : ['{', '{'] <+: cursor.rest) :
    Agrees source (cursor.offset + 1) (curly source rounds nested cursor.offset)
      (Reader.curly read cursor) := by
  refine Agrees.step (rest_eq here) ?_
  refine Agrees.choice (fun _ => agrees_refusal here braces .rawBlock) fun _ => ?_
  refine Agrees.choice (fun _ => scans_inline few here braces) fun _ => ?_
  obtain ⟨eaten, inside, onward⟩ := braces_at here braces
  refine Agrees.step eaten ?_
  generalize (cursor.skip 2).eatTilde = marked at inside onward ⊢
  obtain ⟨trimBefore, place, chars⟩ := marked
  refine Agrees.step (rest_eq inside) ?_
  simp only
  split
  · next tail =>
    refine Agrees.bind (scans_curlyComment inside here.isBoundary)
      fun remark after there further => ?_
    have mark : cursor.offset < place := onward
    have further : place + 1 ≤ after.offset := further
    exact .ok there (by omega)
  · next tail =>
    have hash : At source ⟨place + 1, tail⟩ := @At.behind _ _ ['#'] _ inside
    refine Agrees.step (rest_eq hash) ?_
    simp only
    split
    · exact agrees_refusal here braces _
    · exact agrees_refusal here braces _
    · next noPartial noDecorator =>
      -- the reader tells the kinds of hash tags apart in the same look as the others
      have further : cursor.offset + 1 ≤ place + 1 := Nat.succ_le_succ (Nat.le_of_lt onward)
      have behind : (⟨place, '#' :: tail⟩ : Cursor).skip 1 = ⟨place + 1, tail⟩ := skip_one rfl
      split
      · next equal => cases equal
      · next equal => exact absurd (List.cons.inj equal).2 (noPartial _)
      · next equal => exact absurd (List.cons.inj equal).2 (noDecorator _)
      · rw [behind]
        exact (scans_block few nests here.isBoundary trimBefore _ hash further).mono
          (Nat.le_of_lt (Nat.succ_lt_succ (Nat.lt_succ_of_lt onward)))
      · next equal => cases equal
      · next equal => cases equal
      · next equal => cases equal
      · next equal => cases equal
      · next noBlock _ _ _ _ => exact absurd rfl (noBlock tail)
  · exact agrees_refusal here braces _
  · exact agrees_refusal here braces _
  · exact agrees_refusal here braces _
  · exact agrees_refusal here braces _
  · next noRemark noBlock noPartial noDecorator noInverse noUnescaped =>
    split
    · exact absurd rfl (noRemark _)
    · exact absurd rfl (noBlock _)
    · exact absurd rfl (noBlock _)
    · exact absurd rfl (noBlock _)
    · exact absurd rfl (noPartial _)
    · exact absurd rfl (noDecorator _)
    · exact absurd rfl (noInverse _)
    · exact absurd rfl (noUnescaped _)
    · exact scans_inline few here braces

theorem scans_element (few : source.length < rounds) {cursor : Cursor} (here : At source cursor)
    (nests : Nests source (cursor.offset + 1) size nested read)
    (starts : Reader.startsElement cursor.rest = true) :
    Agrees source (cursor.offset + 1) (element source rounds nested cursor.offset)
      (Reader.element read cursor) := by
  have opens : ['<'] <+: cursor.rest := by
    obtain ⟨char, tail, equal, -⟩ := Reader.startsElement_eq_true starts
    exact ⟨char :: tail, equal.symm⟩
  have inside := here.skip 1
  have opened : (cursor.skip 1).offset = cursor.offset + 1 := skip_ascii opens rfl rfl
  rw [element, ← opened, Reader.element]
  generalize cursor.skip 1 = place at inside opened ⊢
  refine Agrees.step (rest_eq inside) ?_
  simp only
  cases found : Reader.tagName? place.rest with
  | none => exact agrees_fault here.isBoundary rfl
  | some run =>
    obtain ⟨-, tail, equal⟩ := Reader.tagName?_eq_some found
    have named := inside.skip run.length
    have behind : (place.skip run.length).offset = place.offset + byteSize run :=
      skip_offset ⟨tail, equal.symm⟩
    simp only
    rw [← behind]
    generalize place.skip run.length = last at named behind ⊢
    refine Agrees.bind (scans_startTag few here.isBoundary _ rounds _ last named
      (Nat.lt_of_le_of_lt named.length_le few) (Nat.le_refl _)) fun start after there onward => ?_
    have nested : cursor.offset + 1 ≤ after.offset := by omega
    refine Agrees.choice (fun _ => .ok there (by omega)) fun _ => ?_
    refine nests.bind there nested fun children stop close theClose further stops => ?_
    refine Agrees.choice (fun _ => agrees_fault here.isBoundary rfl) fun isClosing => ?_
    obtain rfl := Classical.not_not.mp isClosing
    refine Agrees.bind (scans_endTag _ theClose stops) fun _ final theEnd ending => ?_
    exact .ok theEnd (by omega)

theorem scans_statement (few : source.length < rounds) {cursor : Cursor} (here : At source cursor)
    (nests : Nests source (cursor.offset + 1) size nested read)
    (goesOn : Reader.stop? cursor.rest = none) :
    Agrees source (cursor.offset + 1) (statement source rounds nested cursor.offset)
      (Reader.statement read cursor) := by
  refine Agrees.step (rest_eq here) ?_
  refine Agrees.choice
    (fun braces => scans_curly few here nests (List.isPrefixOf_iff_prefix.mp braces))
    fun noBraces => ?_
  refine Agrees.choice (fun opens => ?_) fun noComment => ?_
  · refine Agrees.bind (scans_comment here (List.isPrefixOf_iff_prefix.mp opens))
      fun remark after there onward => ?_
    exact .ok there onward
  refine Agrees.choice (fun starts => scans_element few here nests starts) fun noElement => ?_
  have noClosing : ['<', '/'].isPrefixOf cursor.rest = false := by
    refine Bool.eq_false_iff.mpr fun closes => ?_
    obtain ⟨tail, equal⟩ := List.isPrefixOf_iff_prefix.mp closes
    rw [← equal] at goesOn
    cases goesOn
  have plain : Reader.endsText cursor.rest = false := by
    rw [Reader.endsText, noClosing, Bool.eq_false_iff.mpr noBraces, Bool.eq_false_iff.mpr noElement,
      Bool.eq_false_iff.mpr noComment]
    rfl
  show Agrees _ _ _ (Except.ok (Reader.text cursor) >>= fun found =>
    Except.ok (Statement.text found.1, found.2))
  exact Agrees.bind (scans_text few here goesOn plain)
    fun run after there onward => .ok there onward

/-! ### Content -/

theorem scans_content (few : source.length < rounds) (left : Nat) :
    ∀ (size : Nat) (cursor : Cursor), At source cursor → cursor.rest.length < left →
      cursor.rest.length ≤ size →
      Agrees source cursor.offset (content source rounds left cursor.offset)
        (Reader.contentWithin size cursor) := by
  induction left with
  | zero =>
    intro size cursor here short
    exact absurd short (Nat.not_lt_zero _)
  | succ left inductionHypothesis =>
    intro size cursor here short enough
    refine Agrees.step (rest_eq here) ?_
    cases size with
    | zero =>
      obtain ⟨offset, chars⟩ := cursor
      obtain rfl := List.length_eq_zero_iff.mp (Nat.le_zero.mp enough)
      exact .ok here (Nat.le_refl _)
    | succ size =>
      have nests : Nests source (cursor.offset + 1) size (content source rounds left)
          (Reader.contentWithin size) := {
        agrees := fun after there further => by
          have shorter := here.length_lt there further
          exact inductionHypothesis size after there (by omega) (by omega)
        short := fun after there further => by
          have shorter := here.length_lt there further
          omega
        spells := Reader.contentWithin_spelling size
        ends := fun offset => by cases size <;> rfl }
      rw [Reader.contentWithin]
      cases stops : Reader.stop? cursor.rest with
      | some stop => exact .ok here (Nat.le_refl _)
      | none =>
        refine Agrees.bind (scans_statement few here nests stops) fun first after there onward => ?_
        refine Agrees.step (goOn_eq onward) (Agrees.bind (nests.agrees after there onward)
          fun more last theEnd further => ?_)
        exact .ok theEnd (by omega)

end Content

end TagMigration.Scan
