/-
An attribute is read up to its own end. A value in quotes ends at its quote, a curly tag at its
braces; an attribute without quotes ends where something follows that is no part of it, and for that
the reader may look as far as the closing angle bracket of the tag, but not past it.
-/
import TagMigration.Proofs.Reading.Inline

namespace TagMigration.Reader

/-! ### Quoted values -/

/-- Whether two braces stand in front is settled by two characters. -/
theorem braces_append {front : List Char} (long : 2 ≤ front.length) (back other : List Char) :
    ['{', '{'].isPrefixOf (front ++ back) = ['{', '{'].isPrefixOf (front ++ other) := by
  have fits : ['{', '{'].length ≤ front.length := long
  rw [isPrefixOf_append _ _ fits, isPrefixOf_append _ _ fits]

/-- The text of a quoted value ends in front of its quote or of two braces, whatever follows. -/
theorem valueText_again {quote : Char} {run back : List Char} (lead : List Char)
    (text : valueText quote (run ++ (lead ++ back)) = run) (nonempty : lead ≠ [])
    (ends : lead.head? = some quote ∨ 2 ≤ lead.length) (other : List Char) :
    valueText quote (run ++ (lead ++ other)) = run := by
  have someLead := List.length_pos_iff.mpr nonempty
  induction run with
  | nil =>
    obtain ⟨first, letters, rfl⟩ := List.exists_cons_of_ne_nil nonempty
    rw [List.nil_append, List.cons_append, valueText] at text ⊢
    split at text
    · next stops =>
      rw [if_pos]
      rcases ends with quoted | long
      · exact .inl (Option.some.inj quoted)
      · rw [← List.cons_append, braces_append long other back]
        exact stops
    · cases text
  | cons char run inductionHypothesis =>
    rw [List.cons_append, valueText] at text ⊢
    split at text
    · cases text
    · next goesOn =>
      have long : 2 ≤ (char :: (run ++ lead)).length := by
        simp only [List.length_cons, List.length_append]
        omega
      rw [← List.append_assoc, ← List.cons_append, braces_append long back other,
        List.cons_append, List.append_assoc] at goesOn
      rw [if_neg goesOn, inductionHypothesis (List.cons.inj text).2]

/-- One step of the reader of a quoted value at the text in front of a quote or a curly tag. -/
theorem valueParts_succ (quote : Char) (begin size offset : Nat) {run rest : List Char}
    (text : valueText quote (run ++ rest) = run) (nonempty : rest ≠ []) :
    valueParts quote begin (size + 1) ⟨offset, run ++ rest⟩ =
      if (⟨offset + byteSize run, rest⟩ : Cursor).startsWith [quote] then
        .ok (textPart run ⟨offset, offset + byteSize run⟩,
          (⟨offset + byteSize run, rest⟩ : Cursor).skip 1)
      else (do
        let (tag, after) ← mustache ⟨offset + byteSize run, rest⟩
        let (more, after) ← valueParts quote begin size after
        .ok (textPart run ⟨offset, offset + byteSize run⟩ ++ .mustache tag :: more, after)) := by
  have left : rest.isEmpty = false := by
    cases rest with
    | nil => exact absurd rfl nonempty
    | cons char rest => rfl
  rw [valueParts]
  simp only [text, Cursor.skip_append, left]
  rfl

/-- The text of a quoted value is a front part of what is read. -/
theorem exists_valueText (quote : Char) (text : List Char) :
    ∃ rest, text = valueText quote text ++ rest := by
  induction text with
  | nil => exact ⟨[], rfl⟩
  | cons char text inductionHypothesis =>
    rw [valueText]
    split
    · exact ⟨char :: text, rfl⟩
    · obtain ⟨rest, equal⟩ := inductionHypothesis
      exact ⟨rest, congrArg (char :: ·) equal⟩

theorem valueParts_end {quote : Char} {begin size offset : Nat} {text : List Char}
    (run : valueText quote text = text) :
    valueParts quote begin size ⟨offset, text⟩ = fault begin .unterminatedValue := by
  cases size with
  | zero => rfl
  | succ size =>
    have whole : (⟨offset, text⟩ : Cursor).skip text.length = ⟨offset + byteSize text, []⟩ := by
      simp [Cursor.skip]
    rw [valueParts]
    simp only [run, whole]
    rfl

/-- The first part of a quoted value is a text, and behind it stands the quote or a curly tag. -/
theorem valueParts_cases {quote : Char} {begin size offset : Nat} {text : List Char}
    {parts : List ValuePart} {after : Cursor}
    (success : valueParts quote begin (size + 1) ⟨offset, text⟩ = .ok (parts, after)) :
    ∃ front rest, text = front ++ rest ∧ valueText quote (front ++ rest) = front ∧
      ((∃ tail, rest = [quote] ++ tail ∧ parts = textPart front ⟨offset, offset + byteSize front⟩ ∧
          after = ⟨offset + byteSize front + byteSize [quote], tail⟩) ∨
        (rest.head? ≠ some quote ∧ ∃ tag afterTag more,
          mustache ⟨offset + byteSize front, rest⟩ = .ok (tag, afterTag) ∧
          valueParts quote begin size afterTag = .ok (more, after) ∧
          parts = textPart front ⟨offset, offset + byteSize front⟩ ++ .mustache tag :: more)) := by
  obtain ⟨rest, equal⟩ := exists_valueText quote text
  generalize run : valueText quote text = front at equal
  subst equal
  refine ⟨front, rest, rfl, run, ?_⟩
  by_cases empty : rest = []
  · subst empty
    rw [List.append_nil] at run success
    rw [valueParts_end run] at success
    cases success
  rw [valueParts_succ quote begin size offset run empty] at success
  split at success
  · next quoted =>
    rw [startsWith_single] at quoted
    obtain ⟨tail, rfl⟩ := List.head?_eq_some_iff.mp quoted
    have upTo : quote :: tail = [quote] ++ tail := rfl
    rw [upTo, Cursor.skip_append_of_length _ (show [quote].length = 1 from rfl)] at success
    cases success
    exact .inl ⟨tail, rfl, rfl, rfl⟩
  · next unquoted =>
    rw [startsWith_single] at unquoted
    obtain ⟨⟨tag, afterTag⟩, readTag, success⟩ := bind_eq_ok success
    obtain ⟨⟨more, last⟩, readMore, success⟩ := bind_eq_ok success
    cases success
    exact .inr ⟨unquoted, tag, afterTag, more, readTag, readMore, rfl⟩

/-- The parts of a quoted value are read up to their quote and no further. -/
theorem valueParts_takes (quote : Char) (begin : Nat) : ∀ (size offset : Nat) (text : List Char)
    (parts : List ValuePart) (after : Cursor),
    valueParts quote begin size ⟨offset, text⟩ = .ok (parts, after) →
    ∃ used rest, text = used ++ rest ∧ after = ⟨offset + byteSize used, rest⟩ ∧
      ∀ bound, used.length ≤ bound → Takes (valueParts quote begin bound) offset used parts := by
  intro size
  induction size with
  | zero =>
    intro offset text parts after success
    cases success
  | succ size inductionHypothesis =>
    intro offset text parts after success
    obtain ⟨front, rest, rfl, run, ⟨tail, rfl, rfl, rfl⟩ |
      ⟨unquoted, tag, afterTag, more, readTag, readMore, rfl⟩⟩ := valueParts_cases success
    · refine ⟨front ++ [quote], tail, by simp, by simp [Nat.add_assoc], fun bound enough other => ?_⟩
      obtain ⟨bound, rfl⟩ :=
        Nat.exists_eq_add_one_of_ne_zero (show bound ≠ 0 by simp at enough; omega)
      have runHere := valueText_again [quote] run (by simp) (.inl rfl) other
      rw [List.append_assoc, valueParts_succ quote begin bound offset runHere (by simp), if_pos,
        Cursor.skip_append_of_length _ (show [quote].length = 1 from rfl)]
      · simp [Nat.add_assoc]
      · exact (startsWith_single _ _ _).mpr rfl
    · obtain ⟨curly, rest, rfl, rfl, isMustache⟩ := mustache_isMustache readTag
      obtain ⟨used, rest, rfl, rfl, takes⟩ := inductionHypothesis _ _ _ _ readMore
      have long := isMustache.long
      have someCurly : curly ≠ [] := List.ne_nil_of_length_pos (by omega)
      refine ⟨front ++ (curly ++ used), rest, by simp, by simp [Nat.add_assoc],
        fun bound enough other => ?_⟩
      simp only [List.length_append] at enough
      obtain ⟨bound, rfl⟩ := Nat.exists_eq_add_one_of_ne_zero (show bound ≠ 0 by omega)
      have runHere := valueText_again curly run someCurly (.inr (by omega)) (used ++ other)
      have unquotedHere : ¬ (⟨offset + byteSize front, curly ++ (used ++ other)⟩ : Cursor).startsWith
          [quote] = true := by
        rw [startsWith_single]
        rw [head?_append_left someCurly] at unquoted ⊢
        exact unquoted
      have same : front ++ (curly ++ used) ++ other = front ++ (curly ++ (used ++ other)) := by simp
      rw [same, valueParts_succ quote begin bound offset runHere (by simp [someCurly]),
        if_neg unquotedHere, isMustache.takes (used ++ other)]
      show (valueParts quote begin bound _ >>= _) = _
      rw [takes bound (by omega) other]
      simp only [byteSize_append, ← Nat.add_assoc]
      rfl

/-- The value that is made of the parts between two quotes. -/
def quotedParts (parts : List ValuePart) (span : Option Span) : AttributeValue :=
  (plainText? parts).elim (.concat parts span) fun chars => .text ⟨chars, span⟩

theorem quotedValue_eq (quote : Char) (offset : Nat) (text : List Char) :
    quotedValue quote ⟨offset, quote :: text⟩ = (do
      let (parts, after) ←
        valueParts quote offset text.length ⟨offset + byteSize [quote], text⟩
      .ok (quotedParts parts (some ⟨offset, after.offset⟩), after)) := by
  have skipped : (⟨offset, quote :: text⟩ : Cursor).skip 1 = ⟨offset + byteSize [quote], text⟩ :=
    Cursor.skip_append offset [quote] text
  simp only [quotedValue, skipped]
  congr 1
  funext found
  rw [quotedParts]
  cases plainText? found.1 <;> rfl

/-- A value in quotes is read up to its quote and no further. -/
theorem quotedValue_takes {quote : Char} {offset : Nat} {text : List Char} {value : AttributeValue}
    {after : Cursor} (success : quotedValue quote ⟨offset, quote :: text⟩ = .ok (value, after)) :
    ∃ used rest, text = used ++ rest ∧ after = ⟨offset + byteSize (quote :: used), rest⟩ ∧
      Takes (quotedValue quote) offset (quote :: used) value := by
  rw [quotedValue_eq] at success
  obtain ⟨⟨parts, last⟩, readParts, success⟩ := bind_eq_ok success
  cases success
  obtain ⟨used, rest, rfl, rfl, takes⟩ := valueParts_takes _ _ _ _ _ _ _ readParts
  have place : offset + byteSize [quote] + byteSize used = offset + byteSize (quote :: used) := by
    simp only [byteSize_cons, byteSize_nil]
    omega
  refine ⟨used, rest, rfl, by rw [place], fun other => ?_⟩
  rw [List.cons_append, quotedValue_eq, takes _ (by simp) other, place]
  rfl

/-! ### Attributes -/

/-- A reader that looks no further than a closing angle bracket behind what it takes. -/
def TakesInTag {Result : Type} (reader : Cursor → Except Fault (Result × Cursor)) : Prop :=
  ∀ offset text value after, reader ⟨offset, text⟩ = .ok (value, after) →
    ∃ used rest, used ≠ [] ∧ text = used ++ rest ∧ after = ⟨offset + byteSize used, rest⟩ ∧
      ∀ front back other, rest = front ++ '>' :: back →
        reader ⟨offset, used ++ (front ++ '>' :: other)⟩ =
          .ok (value, ⟨offset + byteSize used, front ++ '>' :: other⟩)

/-- What stands in front of a character and does not hold it stands before it in every cut. -/
theorem append_eq_stop {run rest front back : List Char} {char : Char} (outside : char ∉ run)
    (equal : run ++ rest = front ++ char :: back) :
    ∃ middle, front = run ++ middle ∧ rest = middle ++ char :: back := by
  rcases List.append_eq_append_iff.mp equal with ⟨middle, frontEq, restEq⟩ | ⟨middle, runEq, restEq⟩
  · exact ⟨middle, frontEq, restEq⟩
  · cases middle with
    | nil => exact ⟨[], by simpa using runEq.symm, restEq.symm⟩
    | cons first middle =>
      obtain ⟨rfl, -⟩ := List.cons.inj restEq
      exact absurd (by simp [runEq]) outside

theorem bareText_stop (front back other : List Char) :
    bareText (front ++ '>' :: back) = bareText (front ++ '>' :: other) := by
  have short : (front.takeWhile isBareChar).length ≤ front.length :=
    (List.takeWhile_sublist _).length_le
  have stops : isBareChar '>' = false := by decide
  simp only [bareText, takeWhile_stop stops, List.drop_append_of_le_length short]
  cases front.drop (front.takeWhile isBareChar).length with
  | nil => rfl
  | cons char rest => by_cases bracket : char = '>' <;> simp [bracket]

theorem bareText_isPrefix (text : List Char) : bareText text <+: text := by
  have run : text.takeWhile isBareChar <+: text := List.takeWhile_prefix _
  simp only [bareText]
  split
  · split
    · exact (List.dropLast_prefix _).trans run
    · exact run
  · exact run

theorem bareText_isEmpty (text : List Char) :
    (bareText text).isEmpty = (text.takeWhile isBareChar).isEmpty := by
  simp only [bareText]
  generalize text.takeWhile isBareChar = run
  split
  · split
    · next slash =>
      obtain ⟨front, rfl⟩ := List.getLast?_eq_some_iff.mp slash.2
      cases front with
      | nil => exact absurd slash.1 (by decide)
      | cons first front => rw [List.dropLast_concat]; rfl
    · rfl
  · rfl

/-- What begins neither with a quote nor with two braces is a value without quotes. -/
theorem attributeValue_bare (name : String) (offset : Nat) {text : List Char}
    (double : text.head? ≠ some '"') (single : text.head? ≠ some '\'')
    (plain : ['{', '{'].isPrefixOf text = false) :
    attributeValue name ⟨offset, text⟩ =
      if (bareText text).isEmpty then fault offset (.missingValue name)
      else .ok (.text ⟨String.ofList (bareText text),
        some ⟨offset, ((⟨offset, text⟩ : Cursor).skip (bareText text).length).offset⟩⟩,
          (⟨offset, text⟩ : Cursor).skip (bareText text).length) := by
  unfold attributeValue
  split
  · next equal => exact absurd (congrArg List.head? equal) double
  · next equal => exact absurd (congrArg List.head? equal) single
  · next equal => rw [show text = _ from equal] at plain; cases plain
  · rfl

theorem head?_stop {front : List Char} {char : Char} (back other : List Char) :
    (front ++ char :: back).head? = (front ++ char :: other).head? := by
  cases front <;> rfl

theorem attributeValue_takesInTag (name : String) : TakesInTag (attributeValue name) := by
  intro offset text value after success
  by_cases double : text.head? = some '"'
  · obtain ⟨tail, rfl⟩ := List.head?_eq_some_iff.mp double
    obtain ⟨used, rest, rfl, rfl, takes⟩ := quotedValue_takes success
    exact ⟨'"' :: used, rest, by simp, rfl, rfl, fun front back other _ => takes _⟩
  by_cases single : text.head? = some '\''
  · obtain ⟨tail, rfl⟩ := List.head?_eq_some_iff.mp single
    obtain ⟨used, rest, rfl, rfl, takes⟩ := quotedValue_takes success
    exact ⟨'\'' :: used, rest, by simp, rfl, rfl, fun front back other _ => takes _⟩
  cases curly : ['{', '{'].isPrefixOf text with
  | true =>
    obtain ⟨tail, rfl⟩ := List.isPrefixOf_iff_prefix.mp curly
    obtain ⟨⟨tag, last⟩, readTag, success⟩ := bind_eq_ok success
    cases success
    obtain ⟨used, rest, equal, rfl, isMustache⟩ := mustache_isMustache readTag
    have long := isMustache.long
    refine ⟨used, rest, List.ne_nil_of_length_pos (by omega), equal, rfl, fun front back other _ => ?_⟩
    match used, long with
    | first :: second :: used, _ =>
      obtain ⟨rfl, rest⟩ := List.cons.inj equal
      obtain ⟨rfl, -⟩ := List.cons.inj rest
      show (mustache _ >>= _) = _
      rw [isMustache.takes]
      rfl
  | false =>
    rw [attributeValue_bare name offset double single curly] at success
    split at success
    · cases success
    · next someText =>
      cases success
      obtain ⟨rest, equal⟩ := bareText_isPrefix text
      generalize run : bareText text = used at *
      subst equal
      rw [Cursor.skip_append]
      refine ⟨used, rest, by simpa using someText, rfl, rfl, fun front back other equal => ?_⟩
      subst equal
      rw [← List.append_assoc] at double single curly run ⊢
      rw [head?_stop back other] at double single
      rw [isPrefixOf_stop (by decide) back other] at curly
      rw [bareText_stop _ back other] at run
      rw [attributeValue_bare name offset double single curly, run, if_neg someText,
        List.append_assoc,
        Cursor.skip_append]

/-- The reader of attributes after its look at the name and the blanks behind it. -/
theorem attr_eq (tag : String) (offset : Nat) {run blanks rest : List Char} (someRun : run ≠ [])
    (isName : ∀ char ∈ run, isAttributeChar char = true)
    (halts : Halts isAttributeChar (blanks ++ rest))
    (blank : ∀ char ∈ blanks, isBlank char = true) (haltsBlank : Halts isBlank rest) :
    attr tag ⟨offset, run ++ (blanks ++ rest)⟩ =
      match (⟨offset + byteSize run + byteSize blanks, rest⟩ : Cursor).eat? ['='] with
      | none => .ok (⟨String.ofList run, .text ⟨"", none⟩, some ⟨offset, offset + byteSize run⟩⟩,
          ⟨offset + byteSize run, blanks ++ rest⟩)
      | some afterEquals => (do
        let (value, after) ← attributeValue (String.ofList run) afterEquals.skipBlanks
        .ok (⟨String.ofList run, value, some ⟨offset, after.offset⟩⟩, after)) := by
  have filled : run.isEmpty = false := by simpa using someRun
  simp only [attr, takeWhile_run isName halts, filled, Cursor.skip_append,
    Cursor.skipBlanks_append _ blank haltsBlank]
  rfl

/-- What was read as an attribute: a name, and behind an equals sign its value, if there is one. -/
theorem attr_eq_ok {tag : String} {cursor after : Cursor} {found : Attribute}
    (success : attr tag cursor = .ok (found, after)) :
    let run := cursor.rest.takeWhile isAttributeChar
    found.name = String.ofList run ∧ found.span = some (cursor.spanTo after) ∧
      (found.value = .text ⟨"", none⟩ ∧ after = cursor.skip run.length ∨
        attributeValue found.name ((cursor.skip run.length).skipBlanks.skip 1).skipBlanks =
          .ok (found.value, after)) := by
  simp only [attr, Cursor.eat?] at success
  split at success
  · cases success
  · split at success
    · cases success
      exact ⟨rfl, rfl, .inl ⟨rfl, rfl⟩⟩
    · next afterEquals eaten =>
      obtain ⟨⟨value, last⟩, readValue, success⟩ := bind_eq_ok success
      cases success
      split at eaten
      · cases eaten
        exact ⟨rfl, rfl, .inr readValue⟩
      · cases eaten

theorem halts_stop {class? : Char → Bool} {front : List Char} {char : Char} {back : List Char}
    (halts : Halts class? (front ++ char :: back)) (other : List Char) :
    Halts class? (front ++ char :: other) := by
  cases front with
  | nil => exact halts_cons.mpr (halts_cons.mp halts)
  | cons first front => exact halts_cons.mpr (halts_cons.mp halts)

theorem eat?_single (offset : Nat) (text : List Char) (char : Char) :
    (⟨offset, text⟩ : Cursor).eat? [char] =
      if text.head? = some char then some ⟨offset + byteSize [char], text.tail⟩ else none := by
  unfold Cursor.eat?
  split
  · next starts =>
    rw [startsWith_single] at starts
    obtain ⟨rest, rfl⟩ := List.head?_eq_some_iff.mp starts
    rw [if_pos starts]
    exact congrArg some (Cursor.skip_append offset [char] rest)
  · next starts =>
    rw [startsWith_single] at starts
    rw [if_neg starts]

theorem attr_takesInTag (tag : String) : TakesInTag (attr tag) := by
  intro offset text value after success
  obtain ⟨run, rest, rfl, isName, halts⟩ := exists_run isAttributeChar text
  obtain ⟨blanks, rest, rfl, blank, haltsBlank⟩ := exists_run isBlank rest
  have noBracket : '>' ∉ blanks := fun member => absurd (blank _ member) (by decide)
  by_cases someRun : run = []
  · subst someRun
    simp only [attr, List.nil_append, takeWhile_of_halts halts] at success
    cases success
  rw [attr_eq tag offset someRun isName halts blank haltsBlank, eat?_single] at success
  by_cases equals : rest.head? = some '='
  · rw [if_pos equals] at success
    obtain ⟨tail, rfl⟩ := List.head?_eq_some_iff.mp equals
    obtain ⟨gap, tail, rfl, isGap, haltsGap⟩ := exists_run isBlank tail
    simp only [List.tail_cons, Cursor.skipBlanks_append _ isGap haltsGap] at success
    obtain ⟨⟨value, last⟩, readValue, success⟩ := bind_eq_ok success
    cases success
    obtain ⟨used, rest, someUsed, rfl, rfl, again⟩ :=
      attributeValue_takesInTag _ _ _ _ _ readValue
    have place : offset + byteSize run + byteSize blanks + byteSize ['='] + byteSize gap +
        byteSize used = offset + byteSize (run ++ (blanks ++ '=' :: (gap ++ used))) := by
      simp only [byteSize_append, byteSize_cons, byteSize_nil]
      omega
    refine ⟨run ++ (blanks ++ '=' :: (gap ++ used)), rest, by simp [someRun], by simp, by rw [place],
      fun front back other equal => ?_⟩
    have same : run ++ (blanks ++ '=' :: (gap ++ used)) ++ (front ++ '>' :: other) =
        run ++ (blanks ++ '=' :: (gap ++ (used ++ (front ++ '>' :: other)))) := by
      simp
    rw [same, attr_eq tag offset someRun isName (halts_stop halts _) blank
      (halts_cons.mpr (by decide)), eat?_single, List.head?_cons, if_pos rfl]
    simp only [List.tail_cons]
    rw [Cursor.skipBlanks_append _ isGap
        ((halts_append someUsed).mpr ((halts_append someUsed).mp haltsGap)),
      again front back other equal, place]
    rfl
  · rw [if_neg equals] at success
    cases success
    refine ⟨run, blanks ++ rest, someRun, rfl, rfl, fun front back other equal => ?_⟩
    obtain ⟨front, rfl, rfl⟩ := append_eq_stop noBracket equal
    rw [← List.append_assoc] at halts
    rw [List.append_assoc, attr_eq tag offset someRun isName
      (by rw [← List.append_assoc]; exact halts_stop halts other) blank (halts_stop haltsBlank other),
      eat?_single, head?_stop other back, if_neg equals]

end TagMigration.Reader
