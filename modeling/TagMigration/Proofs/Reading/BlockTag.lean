/-
The tags between the parts of a block and behind it: an `else` tag, the opening tag of a chained
block, and the closing tag. Each of them has blanks wherever they may stand, and is read up to its
closing braces and no further.
-/
import TagMigration.Proofs.Reading.BlockOpening

namespace TagMigration.Reader

/-! ### The other tags of a block -/

/-- Blanks in front of a text do not bring a `~` marker to the front. -/
theorem head?_blanks {blanks rest : List Char} (blank : ∀ char ∈ blanks, isBlank char = true)
    (other : rest.head? ≠ some '~') : (blanks ++ rest).head? ≠ some '~' := by
  cases blanks with
  | nil => exact other
  | cons first blanks =>
    intro equal
    rw [List.cons_append, List.head?_cons] at equal
    have marked := blank first List.mem_cons_self
    rw [Option.some.inj equal] at marked
    exact absurd marked (by decide)

/-- What stands in a curly tag behind its `~` marker and blanks. -/
theorem tagInside_tilde {present : Bool} {blanks rest : List Char}
    (blank : ∀ char ∈ blanks, isBlank char = true) (halts : Halts isBlank rest)
    (other : present = false → (blanks ++ rest).head? ≠ some '~') :
    tagInside (tilde present ++ (blanks ++ rest)) = rest := by
  cases present with
  | true => exact dropWhile_run blank halts
  | false =>
    have unmarked : tagInside (blanks ++ rest) = (blanks ++ rest).dropWhile isBlank := by
      unfold tagInside
      split
      · next equal =>
        rw [equal] at other
        exact absurd rfl (other rfl)
      · rfl
    exact unmarked.trans (dropWhile_run blank halts)

/-- Every curly tag begins with a `~` marker or none, and blanks. -/
theorem exists_tagInside (text : List Char) :
    ∃ present blanks, text = tilde present ++ (blanks ++ tagInside text) ∧
      (∀ char ∈ blanks, isBlank char = true) ∧
      (present = false → (blanks ++ tagInside text).head? ≠ some '~') := by
  obtain ⟨present, tail, rfl, other⟩ := Cursor.exists_tilde text
  obtain ⟨blanks, rest, rfl, blank, halts⟩ := exists_run isBlank tail
  rw [tagInside_tilde blank halts other]
  exact ⟨present, blanks, rfl, blank, other⟩

/-- The text of a curly tag up to the word that it begins with. -/
def tagLead (present : Bool) (blanks word : List Char) : List Char :=
  '{' :: '{' :: (tilde present ++ (blanks ++ word))

theorem tagLead_append (present : Bool) (blanks word rest : List Char) :
    tagLead present blanks word ++ rest =
      '{' :: '{' :: (tilde present ++ (blanks ++ (word ++ rest))) := by
  simp [tagLead]

/-- The letters of `else`. -/
def elseLetters : List Char := ['e', 'l', 's', 'e']

/-- Content stops at the word `else` in a curly tag. -/
theorem stop?_eq_elseTag {text : List Char} (stops : stop? text = some .elseTag) :
    ∃ present blanks tail, text = tagLead present blanks elseLetters ++ tail ∧
      (∀ char ∈ blanks, isBlank char = true) ∧ endsWord tail = true := by
  unfold stop? at stops
  split at stops
  · cases stops
  · cases stops
  · next rest =>
    simp only at stops
    split at stops
    · next word =>
      obtain ⟨tail, inside⟩ := List.isPrefixOf_iff_prefix.mp (isPrefixOf_of_isElse word)
      obtain ⟨present, blanks, equal, blank, -⟩ := exists_tagInside rest
      rw [← inside] at equal word
      rw [isElse_else] at word
      exact ⟨present, blanks, tail, by rw [equal, tagLead_append]; rfl, blank, word⟩
    · split at stops <;> cases stops
  · cases stops

theorem stop?_else {present : Bool} {blanks tail : List Char}
    (blank : ∀ char ∈ blanks, isBlank char = true) (ends : endsWord tail = true) :
    stop? (tagLead present blanks elseLetters ++ tail) = some .elseTag := by
  have inside : tagInside (tilde present ++ (blanks ++ (elseLetters ++ tail))) =
      elseLetters ++ tail :=
    tagInside_tilde blank (halts_cons.mpr (by decide))
      fun _ => head?_blanks blank (by simp [elseLetters])
  have word : isElse (elseLetters ++ tail) = true := (isElse_else tail).trans ends
  rw [tagLead_append]
  simp only [stop?, inside, word]
  rfl

theorem elseWord_else {present : Bool} {blanks gap tail : List Char} (offset : Nat)
    (blank : ∀ char ∈ blanks, isBlank char = true) (isGap : ∀ char ∈ gap, isBlank char = true)
    (halts : Halts isBlank tail) :
    elseWord ⟨offset, tagLead present blanks elseLetters ++ (gap ++ tail)⟩ =
      (present, ⟨offset + byteSize (tagLead present blanks (elseLetters ++ gap)), tail⟩) := by
  have stopsBlank : Halts isBlank (elseLetters ++ (gap ++ tail)) := halts_cons.mpr (by decide)
  rw [tagLead_append, elseWord, skip_braces
    fun _ => head?_blanks blank (by simp [elseLetters])]
  simp only
  rw [Cursor.skipBlanks_append _ blank stopsBlank,
    Cursor.skip_append_of_length _ (show elseLetters.length = 4 from rfl),
    Cursor.skipBlanks_append _ isGap halts]
  simp only [tagLead, byteSize_append, byteSize_cons, Nat.add_assoc]

/-- The closing braces of a tag with their `~` marker. -/
def tagClose (trim : Bool) : List Char :=
  tilde trim ++ ['}', '}']

theorem halts_tagClose (trim : Bool) (rest : List Char) :
    Halts isBlank (tagClose trim ++ rest) ∧ Halts isNameChar (tagClose trim ++ rest) := by
  cases trim <;> exact ⟨halts_cons.mpr (by decide), halts_cons.mpr (by decide)⟩

/-- A name ends in front of blanks and closing braces. -/
theorem halts_space_tagClose {space : List Char} (isSpace : ∀ char ∈ space, isBlank char = true)
    (trim : Bool) (rest : List Char) : Halts isNameChar (space ++ (tagClose trim ++ rest)) := by
  cases space with
  | nil => exact (halts_tagClose trim rest).2
  | cons first space =>
    refine halts_cons.mpr (Bool.eq_false_iff.mpr fun named => ?_)
    have blankFirst := isSpace first List.mem_cons_self
    rw [isBlank_of_isNameChar named] at blankFirst
    cases blankFirst

theorem closer?_tagClose (offset : Nat) (trim : Bool) (rest : List Char) :
    closer? .braces ⟨offset, tagClose trim ++ rest⟩ =
      some (trim, ⟨offset + byteSize (tagClose trim), rest⟩) := by
  rw [tagClose, List.append_assoc]
  exact closer?_tilde .braces offset rest trim fun _ => by decide

theorem endsWord_blank {gap : List Char} (isGap : ∀ char ∈ gap, isBlank char = true) (trim : Bool)
    (rest : List Char) : endsWord (gap ++ (tagClose trim ++ rest)) = true := by
  cases gap with
  | nil => cases trim <;> rfl
  | cons first gap =>
    have blank := isGap first List.mem_cons_self
    have notBrace : first ≠ '}' := by
      rintro rfl
      exact absurd blank (by decide)
    simp [endsWord, notBrace, blank]

/-- The `else` tag in front of a plain inverse, with blanks wherever they may stand. -/
theorem elseTag_else {present : Bool} {blanks gap : List Char} (offset : Nat)
    (blank : ∀ char ∈ blanks, isBlank char = true) (isGap : ∀ char ∈ gap, isBlank char = true)
    (trim : Bool) :
    Takes elseTag offset (tagLead present blanks (elseLetters ++ gap) ++ tagClose trim)
      ⟨present, trim⟩ := by
  intro rest
  have same : tagLead present blanks (elseLetters ++ gap) ++ tagClose trim ++ rest =
      tagLead present blanks elseLetters ++ (gap ++ (tagClose trim ++ rest)) := by
    simp [tagLead]
  rw [same, elseTag, if_pos (stop?_else blank (endsWord_blank isGap trim rest)),
    elseWord_else offset blank isGap (halts_tagClose trim rest).1, closer?_tagClose,
    byteSize_append _ (tagClose trim), Nat.add_assoc]

/-- What the `else` tag in front of a plain inverse is read from. -/
theorem elseTag_eq_ok {offset : Nat} {text : List Char} {trim : Trim} {after : Cursor}
    (success : elseTag ⟨offset, text⟩ = .ok (trim, after)) :
    ∃ blanks gap rest, (∀ char ∈ blanks, isBlank char = true) ∧ (∀ char ∈ gap, isBlank char = true) ∧
      text = tagLead trim.before blanks (elseLetters ++ gap) ++ tagClose trim.after ++ rest ∧
      after = ⟨offset + byteSize (tagLead trim.before blanks (elseLetters ++ gap) ++
        tagClose trim.after), rest⟩ := by
  unfold elseTag at success
  split at success
  · next stops =>
    obtain ⟨present, blanks, tail, rfl, blank, ends⟩ := stop?_eq_elseTag stops
    obtain ⟨gap, tail, rfl, isGap, halts⟩ := exists_run isBlank tail
    rw [elseWord_else offset blank isGap halts] at success
    split at success
    · next trimAfter last found =>
      cases success
      obtain ⟨rest, rfl, rfl, -⟩ := closer?_eq_some found
      refine ⟨blanks, gap, rest, blank, isGap, ?_, ?_⟩
      · simp [tagLead, tagClose, Closer.chars]
      · rw [byteSize_append _ (tagClose trimAfter), ← Nat.add_assoc]
        rfl
    · cases success
  · cases success

theorem elseTag_takesOnly : TakesOnly elseTag := by
  intro offset text trim after success
  obtain ⟨blanks, gap, rest, blank, isGap, rfl, rfl⟩ := elseTag_eq_ok success
  exact ⟨_, rest, rfl, rfl, elseTag_else offset blank isGap trim.after⟩

/-- What the `else` tag that opens a chained block is read from. -/
theorem elseOpening_eq_ok {offset : Nat} {text : List Char} {opening : BlockOpening}
    {after : Cursor} (success : elseOpening ⟨offset, text⟩ = .ok (opening, after)) :
    ∃ present blanks gap tail, (∀ char ∈ blanks, isBlank char = true) ∧
      (∀ char ∈ gap, isBlank char = true) ∧ Halts isBlank tail ∧ endsWord (gap ++ tail) = true ∧
      text = tagLead present blanks elseLetters ++ (gap ++ tail) ∧
      closer? .braces ⟨offset + byteSize (tagLead present blanks (elseLetters ++ gap)), tail⟩ =
        none ∧
      blockOpening ⟨offset, text⟩ present .unnamedChain
        ⟨offset + byteSize (tagLead present blanks (elseLetters ++ gap)), tail⟩ =
          .ok (opening, after) := by
  unfold elseOpening at success
  split at success
  · next tests =>
    obtain ⟨stops, open'⟩ := tests
    obtain ⟨present, blanks, tail, rfl, blank, ends⟩ := stop?_eq_elseTag stops
    obtain ⟨gap, tail, rfl, isGap, halts⟩ := exists_run isBlank tail
    rw [elseWord_else offset blank isGap halts] at success open'
    exact ⟨present, blanks, gap, tail, blank, isGap, halts, ends, rfl, open', success⟩
  · cases success

theorem elseOpening_yields : Yields elseOpening IsOpening := by
  intro offset text opening after success
  obtain ⟨present, blanks, gap, tail, blank, isGap, halts, ends, rfl, open', success⟩ :=
    elseOpening_eq_ok success
  obtain ⟨inside, rest, nonempty, rfl, rfl, begin, span, values, name, again⟩ :=
    blockOpening_inside success
  have place : offset + byteSize (tagLead present blanks (elseLetters ++ gap)) +
      byteSize inside + byteSize ['}', '}'] =
        offset + byteSize (tagLead present blanks (elseLetters ++ gap) ++ (inside ++ ['}', '}'])) := by
    simp only [byteSize_append, Nat.add_assoc]
  rw [place] at span again ⊢
  refine ⟨tagLead present blanks (elseLetters ++ gap) ++ (inside ++ ['}', '}']), rest,
    by simp [tagLead], rfl, fun other => ?_, begin, span, fun argument member => ?_, name⟩
  · have same : tagLead present blanks (elseLetters ++ gap) ++ (inside ++ ['}', '}']) ++ other =
        tagLead present blanks elseLetters ++ (gap ++ (inside ++ (['}', '}'] ++ other))) := by
      simp [tagLead]
    have endsHere : endsWord (gap ++ (inside ++ (['}', '}'] ++ other))) = true := by
      rw [← List.append_assoc] at ends ⊢
      rw [← ends]
      exact endsWord_stop _ _ _
    have haltsHere : Halts isBlank (inside ++ (['}', '}'] ++ other)) :=
      (halts_append nonempty).mpr ((halts_append nonempty).mp halts)
    rw [same, elseOpening, elseWord_else offset blank isGap haltsHere, if_pos]
    · exact again other
    · exact ⟨stop?_else blank endsHere, closer?_eq_none_append nonempty open'⟩
  · exact ((values argument member).append_right _).append_left _

/-- Content stops at a slash in a curly tag. -/
theorem stop?_eq_closeTag {text : List Char} (stops : stop? text = some .closeTag) :
    ∃ present blanks tail, text = tagLead present blanks ['/'] ++ tail ∧
      (∀ char ∈ blanks, isBlank char = true) := by
  unfold stop? at stops
  split at stops
  · cases stops
  · cases stops
  · next rest =>
    simp only at stops
    split at stops
    · cases stops
    · split at stops
      · next slash =>
        obtain ⟨tail, inside⟩ := List.isPrefixOf_iff_prefix.mp slash
        obtain ⟨present, blanks, equal, blank, -⟩ := exists_tagInside rest
        rw [← inside] at equal
        exact ⟨present, blanks, tail, by rw [equal, tagLead_append], blank⟩
      · cases stops
  · cases stops

theorem stop?_slash {present : Bool} {blanks tail : List Char}
    (blank : ∀ char ∈ blanks, isBlank char = true) :
    stop? (tagLead present blanks ['/'] ++ tail) = some .closeTag := by
  have inside : tagInside (tilde present ++ (blanks ++ (['/'] ++ tail))) = ['/'] ++ tail :=
    tagInside_tilde blank (halts_cons.mpr (by decide)) fun _ => head?_blanks blank (by simp)
  rw [tagLead_append]
  simp only [stop?, inside]
  rfl

/-- The reader of closing tags after its look at the slash, the name and the blanks. -/
theorem blockEnd_slash {present : Bool} {blanks gap run space tail : List Char} (offset : Nat)
    (name : String) (blank : ∀ char ∈ blanks, isBlank char = true)
    (isGap : ∀ char ∈ gap, isBlank char = true)
    (haltsGap : Halts isBlank (run ++ (space ++ tail)))
    (isName : ∀ char ∈ run, isNameChar char = true)
    (haltsName : Halts isNameChar (space ++ tail)) (isSpace : ∀ char ∈ space, isBlank char = true)
    (halts : Halts isBlank tail) :
    blockEnd name ⟨offset, tagLead present blanks ['/'] ++ (gap ++ (run ++ (space ++ tail)))⟩ =
      if run.isEmpty then fault offset .unnamedClose
      else
        (closer? .braces
          ⟨offset + byteSize (tagLead present blanks ['/'] ++ (gap ++ (run ++ space))), tail⟩).elim
          (fault offset .unendedClose) fun found =>
            if String.ofList run = name then .ok (⟨present, found.1⟩, found.2)
            else fault offset (.mismatchedClose (String.ofList run) name) := by
  have haltsSlash : Halts isBlank (['/'] ++ (gap ++ (run ++ (space ++ tail)))) :=
    halts_cons.mpr (by decide)
  have place : offset + byteSize ('{' :: '{' :: tilde present) + byteSize blanks + byteSize ['/'] +
      byteSize gap + byteSize run + byteSize space =
        offset + byteSize (tagLead present blanks ['/'] ++ (gap ++ (run ++ space))) := by
    simp only [tagLead, byteSize_append, byteSize_cons, byteSize_nil]
    omega
  rw [blockEnd, if_pos (stop?_slash blank), tagLead_append, blockClose,
    skip_braces fun _ => head?_blanks blank (by simp)]
  simp only
  rw [Cursor.skipBlanks_append _ blank haltsSlash,
    Cursor.skip_append_of_length _ (show ['/'].length = 1 from rfl),
    Cursor.skipBlanks_append _ isGap haltsGap]
  simp only [nameRun, takeWhile_run isName haltsName, Cursor.skip_append,
    Cursor.skipBlanks_append _ isSpace halts, place]
  cases closer? .braces
    ⟨offset + byteSize (tagLead present blanks ['/'] ++ (gap ++ (run ++ space))), tail⟩ <;> rfl

/-- The closing tag of a block, with blanks wherever they may stand. -/
theorem blockEnd_close {present : Bool} {blanks gap run space : List Char} (offset : Nat)
    (blank : ∀ char ∈ blanks, isBlank char = true) (isGap : ∀ char ∈ gap, isBlank char = true)
    (someRun : run ≠ []) (isName : ∀ char ∈ run, isNameChar char = true)
    (isSpace : ∀ char ∈ space, isBlank char = true) (trim : Bool) :
    Takes (blockEnd (String.ofList run)) offset
      (tagLead present blanks ['/'] ++ (gap ++ (run ++ space)) ++ tagClose trim)
      ⟨present, trim⟩ := by
  intro rest
  have same : tagLead present blanks ['/'] ++ (gap ++ (run ++ space)) ++ tagClose trim ++ rest =
      tagLead present blanks ['/'] ++ (gap ++ (run ++ (space ++ (tagClose trim ++ rest)))) := by
    simp
  have haltsName := halts_space_tagClose isSpace trim rest
  have haltsGap : Halts isBlank (run ++ (space ++ (tagClose trim ++ rest))) := by
    obtain ⟨first, letters, rfl⟩ := List.exists_cons_of_ne_nil someRun
    exact halts_cons.mpr (isBlank_of_isNameChar (isName first List.mem_cons_self))
  rw [same, blockEnd_slash offset _ blank isGap haltsGap isName haltsName isSpace
    (halts_tagClose trim rest).1, if_neg (by simpa using someRun), closer?_tagClose,
    byteSize_append _ (tagClose trim), Nat.add_assoc]
  exact if_pos rfl

/-- What the closing tag of a block is read from. -/
theorem blockEnd_eq_ok {name : String} {offset : Nat} {text : List Char} {trim : Trim}
    {after : Cursor} (success : blockEnd name ⟨offset, text⟩ = .ok (trim, after)) :
    ∃ blanks gap space rest, (∀ char ∈ blanks, isBlank char = true) ∧
      (∀ char ∈ gap, isBlank char = true) ∧ name.toList ≠ [] ∧
      (∀ char ∈ name.toList, isNameChar char = true) ∧ (∀ char ∈ space, isBlank char = true) ∧
      text = tagLead trim.before blanks ['/'] ++ (gap ++ (name.toList ++ space)) ++
        tagClose trim.after ++ rest ∧
      after = ⟨offset + byteSize (tagLead trim.before blanks ['/'] ++
        (gap ++ (name.toList ++ space)) ++ tagClose trim.after), rest⟩ := by
  by_cases stops : stop? text = some .closeTag
  · obtain ⟨present, blanks, tail, rfl, blank⟩ := stop?_eq_closeTag stops
    obtain ⟨gap, tail, rfl, isGap, haltsGap⟩ := exists_run isBlank tail
    obtain ⟨run, tail, rfl, isName, haltsName⟩ := exists_run isNameChar tail
    obtain ⟨space, tail, rfl, isSpace, halts⟩ := exists_run isBlank tail
    rw [blockEnd_slash offset name blank isGap haltsGap isName haltsName isSpace halts] at success
    split at success
    · cases success
    · next someRun =>
      rw [List.isEmpty_iff] at someRun
      cases found : closer? .braces
          ⟨offset + byteSize (tagLead present blanks ['/'] ++ (gap ++ (run ++ space))), tail⟩ with
      | none =>
        rw [found] at success
        cases success
      | some closed =>
        rw [found, Option.elim_some] at success
        split at success
        · next matching =>
          cases success
          subst matching
          obtain ⟨rest, rfl, behind, -⟩ := closer?_eq_some found
          rw [String.toList_ofList, behind]
          refine ⟨blanks, gap, space, rest, blank, isGap, someRun, isName, isSpace, ?_, ?_⟩
          · simp [tagClose, Closer.chars]
          · rw [byteSize_append _ (tagClose closed.1), ← Nat.add_assoc]
            rfl
        · cases success
  · rw [blockEnd, if_neg stops] at success
    cases success

theorem blockEnd_takesOnly (name : String) : TakesOnly (blockEnd name) := by
  intro offset text trim after success
  obtain ⟨blanks, gap, space, rest, blank, isGap, someName, isName, isSpace, rfl, rfl⟩ :=
    blockEnd_eq_ok success
  refine ⟨_, rest, rfl, rfl, ?_⟩
  have takes :=
    @blockEnd_close trim.before _ _ _ _ offset blank isGap someName isName isSpace trim.after
  rwa [String.ofList_toList] at takes

end TagMigration.Reader
