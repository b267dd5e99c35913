/-
The start tag and the end tag of an element are read up to their closing angle brackets and no
further. Content stops in front of an end tag, and does not stop in front of a start tag.
-/
import TagMigration.Proofs.Reading.BlockOpening

namespace TagMigration.Reader

/-! ### The tags of an element -/

theorem tagName?_stop (front back other : List Char) :
    tagName? (front ++ '>' :: back) = tagName? (front ++ '>' :: other) := by
  cases front with
  | nil => rfl
  | cons first front =>
    simp only [List.cons_append, tagName?]
    rw [takeWhile_stop rfl, takeWhile_stop rfl]

theorem tagName?_eq_some {text run : List Char} (found : tagName? text = some run) :
    run ≠ [] ∧ ∃ rest, text = run ++ rest := by
  cases text with
  | nil => cases found
  | cons first text =>
    rw [tagName?] at found
    split at found
    · cases found
      obtain ⟨rest, equal⟩ := List.takeWhile_prefix (l := text)
        fun char => !isBlank char && char != '/' && char != '>'
      exact ⟨by simp, rest, by rw [List.cons_append, equal]⟩
    · cases found

theorem startsElement_eq_true {text : List Char} (starts : startsElement text = true) :
    ∃ char rest, text = '<' :: char :: rest ∧ isTagStart char = true := by
  unfold startsElement at starts
  split at starts
  · next char rest => exact ⟨char, rest, rfl, starts⟩
  · cases starts

theorem startsElement_of_tagName? {text run : List Char} (found : tagName? text = some run) :
    startsElement ('<' :: text) = true := by
  cases text with
  | nil => cases found
  | cons first text =>
    rw [tagName?] at found
    split at found
    · next starts => exact starts
    · cases found

/-- A name and the rest of a start tag behind it are a start tag. -/
theorem EndsTag.takes_elementStart {offset : Nat} {run inside back : List Char} {start : StartTag}
    (named : tagName? (run ++ (inside ++ '>' :: back)) = some run)
    (ends : EndsTag (String.ofList run) offset (offset + byteSize ['<'] + byteSize run) inside
      start) :
    Takes elementStart offset ('<' :: (run ++ (inside ++ ['>']))) (String.ofList run, start) := by
  intro other
  have place : offset + byteSize ['<'] + byteSize run + byteSize inside + byteSize ['>'] =
      offset + byteSize ('<' :: (run ++ (inside ++ ['>']))) := by
    simp only [byteSize_append, byteSize_cons, byteSize_nil]
    omega
  have same : '<' :: (run ++ (inside ++ ['>'])) ++ other =
      '<' :: (run ++ (inside ++ '>' :: other)) := by
    simp
  have namedHere : tagName? (run ++ (inside ++ '>' :: other)) = some run := by
    rw [← List.append_assoc] at named ⊢
    rw [tagName?_stop _ other back, named]
  have skipped : (⟨offset, '<' :: (run ++ (inside ++ '>' :: other))⟩ : Cursor).skip 1 =
      ⟨offset + byteSize ['<'], run ++ (inside ++ '>' :: other)⟩ :=
    Cursor.skip_append offset ['<'] _
  rw [same, elementStart, if_pos (startsElement_of_tagName? namedHere)]
  simp only [skipped, namedHere]
  rw [Cursor.skip_append, ends _ other (by simp), place]
  rfl

/-- What the start tag of an element is read from. -/
theorem elementStart_eq_ok {offset : Nat} {text : List Char} {tag : String} {start : StartTag}
    {after : Cursor} (success : elementStart ⟨offset, text⟩ = .ok ((tag, start), after)) :
    ∃ tail, text = '<' :: (tag.toList ++ tail) ∧ tagName? (tag.toList ++ tail) = some tag.toList ∧
      startTag tag offset tail.length ⟨offset + byteSize ['<'] + byteSize tag.toList, tail⟩ =
        .ok (start, after) := by
  unfold elementStart at success
  split at success
  · next starts =>
    obtain ⟨first, tail, rfl, -⟩ := startsElement_eq_true starts
    have skipped : (⟨offset, '<' :: first :: tail⟩ : Cursor).skip 1 =
        ⟨offset + byteSize ['<'], first :: tail⟩ :=
      Cursor.skip_append offset ['<'] (first :: tail)
    simp only [skipped] at success
    split at success
    · cases success
    · next run named =>
      obtain ⟨-, tail, equal⟩ := tagName?_eq_some named
      rw [equal] at success named
      obtain ⟨⟨start, last⟩, readStart, success⟩ := bind_eq_ok success
      cases success
      rw [Cursor.skip_append] at readStart
      rw [equal, String.toList_ofList]
      exact ⟨tail, rfl, named, readStart⟩
  · cases success

theorem elementStart_takesOnly : TakesOnly elementStart := by
  rintro offset text ⟨tag, start⟩ after success
  obtain ⟨tail, rfl, named, readStart⟩ := elementStart_eq_ok success
  obtain ⟨inside, rest, rfl, rfl, ends⟩ := startTag_endsTag _ _ _ _ _ readStart
  have place : offset + byteSize ['<'] + byteSize tag.toList + byteSize inside + byteSize ['>'] =
      offset + byteSize ('<' :: (tag.toList ++ (inside ++ ['>']))) := by
    simp only [byteSize_append, byteSize_cons, byteSize_nil]
    omega
  refine ⟨'<' :: (tag.toList ++ (inside ++ ['>'])), rest, by simp, by rw [place], ?_⟩
  have takes := @EndsTag.takes_elementStart _ _ _ _ start named (by rwa [String.ofList_toList])
  rwa [String.ofList_toList] at takes

theorem stop?_eq_closingTag {text : List Char} (stops : stop? text = some .closingTag) :
    ∃ tail, text = ['<', '/'] ++ tail := by
  unfold stop? at stops
  split at stops
  · cases stops
  · next tail => exact ⟨tail, rfl⟩
  · simp only at stops
    split at stops
    · cases stops
    · split at stops <;> cases stops
  · cases stops

/-- A name between the brackets of an end tag. -/
theorem takes_elementEnd {run blanks back : List Char} (offset : Nat)
    (named : tagName? (run ++ (blanks ++ '>' :: back)) = some run)
    (blank : ∀ char ∈ blanks, isBlank char = true) :
    Takes (elementEnd (String.ofList run)) offset (['<', '/'] ++ (run ++ (blanks ++ ['>']))) () := by
  intro other
  have place : offset + byteSize ['<', '/'] + byteSize run + byteSize blanks + byteSize ['>'] =
      offset + byteSize (['<', '/'] ++ (run ++ (blanks ++ ['>']))) := by
    simp only [byteSize_append, Nat.add_assoc]
  have same : ['<', '/'] ++ (run ++ (blanks ++ ['>'])) ++ other =
      ['<', '/'] ++ (run ++ (blanks ++ '>' :: other)) := by
    simp
  have namedHere : tagName? (run ++ (blanks ++ '>' :: other)) = some run := by
    rw [← List.append_assoc] at named ⊢
    rw [tagName?_stop _ other back, named]
  have stops : stop? (['<', '/'] ++ (run ++ (blanks ++ '>' :: other))) = some .closingTag := rfl
  have skipped : (⟨offset, ['<', '/'] ++ (run ++ (blanks ++ '>' :: other))⟩ : Cursor).skip 2 =
      ⟨offset + byteSize ['<', '/'], run ++ (blanks ++ '>' :: other)⟩ :=
    Cursor.skip_append offset ['<', '/'] _
  rw [same, elementEnd, if_pos stops, endTag]
  simp only [skipped, namedHere]
  rw [Cursor.skip_append, Cursor.skipBlanks_append _ blank (halts_cons.mpr (by decide)),
    eat?_single, List.head?_cons, if_pos rfl]
  simp only [List.tail_cons, place, if_true]

/-- What the end tag of an element is read from. -/
theorem elementEnd_eq_ok {tag : String} {offset : Nat} {text : List Char} {found : Unit}
    {after : Cursor} (success : elementEnd tag ⟨offset, text⟩ = .ok (found, after)) :
    ∃ blanks rest, (∀ char ∈ blanks, isBlank char = true) ∧
      tagName? (tag.toList ++ (blanks ++ '>' :: rest)) = some tag.toList ∧
      text = ['<', '/'] ++ (tag.toList ++ (blanks ++ ['>'])) ++ rest ∧
      after = ⟨offset + byteSize (['<', '/'] ++ (tag.toList ++ (blanks ++ ['>']))), rest⟩ := by
  unfold elementEnd at success
  split at success
  · next stops =>
    obtain ⟨tail, rfl⟩ := stop?_eq_closingTag stops
    have skipped : (⟨offset, ['<', '/'] ++ tail⟩ : Cursor).skip 2 =
        ⟨offset + byteSize ['<', '/'], tail⟩ :=
      Cursor.skip_append offset ['<', '/'] tail
    simp only [endTag, skipped] at success
    split at success
    · cases success
    · next run named =>
      obtain ⟨-, tail, rfl⟩ := tagName?_eq_some named
      obtain ⟨blanks, tail, rfl, blank, halts⟩ := exists_run isBlank tail
      simp only [Cursor.skip_append, Cursor.skipBlanks_append _ blank halts, eat?_single] at success
      by_cases closes : tail.head? = some '>'
      · obtain ⟨rest, rfl⟩ := List.head?_eq_some_iff.mp closes
        rw [if_pos closes] at success
        simp only [List.tail_cons] at success
        split at success
        · next matching =>
          cases success
          subst matching
          rw [String.toList_ofList]
          refine ⟨blanks, rest, blank, named, by simp, ?_⟩
          simp only [byteSize_append, Nat.add_assoc]
        · cases success
      · rw [if_neg closes] at success
        cases success
  · cases success

theorem elementEnd_takesOnly (tag : String) : TakesOnly (elementEnd tag) := by
  rintro offset text ⟨⟩ after success
  obtain ⟨blanks, rest, blank, named, rfl, rfl⟩ := elementEnd_eq_ok success
  have takes := takes_elementEnd offset named blank
  rw [String.ofList_toList] at takes
  exact ⟨_, rest, rfl, rfl, takes⟩

end TagMigration.Reader
