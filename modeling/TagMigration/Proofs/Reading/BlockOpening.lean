/-
Opening tags of blocks are read up to their own end and no further. The test for where content
stops looks into a curly tag as well, but never past its closing braces. An opening tag has a hash
sign behind its braces, and its inside is a call up to the braces that close it.
-/
import TagMigration.Proofs.Reading.Start

namespace TagMigration.Reader

/-! ### Where content stops -/

theorem dropWhile_stop {class? : Char → Bool} {front back : List Char} {char : Char}
    (fails : class? char = false) :
    (front ++ char :: back).dropWhile class? = front.dropWhile class? ++ char :: back := by
  induction front with
  | nil => rw [List.nil_append, List.dropWhile_cons, fails]; rfl
  | cons first front inductionHypothesis =>
    rw [List.cons_append, List.dropWhile_cons, List.dropWhile_cons, inductionHypothesis]
    split <;> rfl

theorem tagInside_stop (front back : List Char) :
    tagInside (front ++ '}' :: back) = tagInside front ++ '}' :: back := by
  have stops : isBlank '}' = false := by decide
  cases front with
  | nil => rfl
  | cons char front =>
    by_cases marked : char = '~'
    · subst marked
      exact dropWhile_stop stops
    · have plain (text : List Char) : tagInside (char :: text) = (char :: text).dropWhile isBlank := by
        simp [tagInside, marked]
      rw [List.cons_append, plain, plain, ← List.cons_append, dropWhile_stop stops]

/-- What follows the letters of `else` ends the word. -/
def endsWord : List Char → Bool
  | '}' :: '}' :: _ => true
  | char :: _ => char == '~' || isBlank char
  | [] => false

theorem isElse_else (rest : List Char) : isElse (['e', 'l', 's', 'e'] ++ rest) = endsWord rest := by
  cases rest with
  | nil => rfl
  | cons first rest =>
    simp only [List.cons_append, List.nil_append]
    unfold isElse endsWord
    split <;> simp_all

theorem isPrefixOf_of_isElse {text : List Char} (found : isElse text = true) :
    ['e', 'l', 's', 'e'].isPrefixOf text = true := by
  unfold isElse at found
  split at found
  · rfl
  · rfl
  · cases found

theorem endsWord_stop (front back other : List Char) :
    endsWord (front ++ '}' :: '}' :: back) = endsWord (front ++ '}' :: '}' :: other) := by
  match front with
  | [] => rfl
  | [first] => by_cases brace : first = '}' <;> simp [endsWord, brace]
  | first :: second :: front =>
    by_cases braces : first = '}' ∧ second = '}'
    · obtain ⟨rfl, rfl⟩ := braces
      rfl
    · have plain (text : List Char) : endsWord (first :: second :: text) =
          (first == '~' || isBlank first) := by
        unfold endsWord
        split
        · next equal => cases equal; exact absurd ⟨rfl, rfl⟩ braces
        · next equal => cases equal; rfl
        · next equal => cases equal
      exact (plain _).trans (plain _).symm

theorem isElse_stop (front back other : List Char) :
    isElse (front ++ '}' :: '}' :: back) = isElse (front ++ '}' :: '}' :: other) := by
  have starts : ['e', 'l', 's', 'e'].isPrefixOf (front ++ '}' :: '}' :: back) =
      ['e', 'l', 's', 'e'].isPrefixOf (front ++ '}' :: '}' :: other) :=
    isPrefixOf_stop (by decide) _ _
  cases word : ['e', 'l', 's', 'e'].isPrefixOf (front ++ '}' :: '}' :: back) with
  | true =>
    obtain ⟨rest, equal⟩ := List.isPrefixOf_iff_prefix.mp word
    obtain ⟨front, rfl, rfl⟩ := append_eq_stop (by decide) equal
    rw [List.append_assoc, List.append_assoc, isElse_else, isElse_else]
    exact endsWord_stop front back other
  | false =>
    rw [word] at starts
    rw [Bool.eq_false_iff.mpr (mt isPrefixOf_of_isElse (Bool.eq_false_iff.mp word)),
      Bool.eq_false_iff.mpr (mt isPrefixOf_of_isElse (Bool.eq_false_iff.mp starts.symm))]

/-- Whether content stops at a curly tag is settled before its closing braces are over. -/
theorem stop?_braces (front back other : List Char) :
    stop? ('{' :: '{' :: front ++ ['}', '}'] ++ back) =
      stop? ('{' :: '{' :: front ++ ['}', '}'] ++ other) := by
  have inside (rest : List Char) : tagInside (front ++ ['}', '}'] ++ rest) =
      tagInside front ++ '}' :: '}' :: rest := by
    rw [List.append_assoc]
    exact tagInside_stop front ('}' :: rest)
  simp only [List.cons_append, stop?, inside]
  rw [isElse_stop _ back other, isPrefixOf_stop (by decide) ('}' :: back) ('}' :: other)]

/-! ### Readers and what they yield -/

/-- A reader that does not look past what it takes, and yields only what has the property. -/
def Yields {Result : Type} (reader : Cursor → Except Fault (Result × Cursor))
    (property : Nat → List Char → Result → Prop) : Prop :=
  ∀ offset text value after, reader ⟨offset, text⟩ = .ok (value, after) →
    ∃ used rest, text = used ++ rest ∧ after = ⟨offset + byteSize used, rest⟩ ∧
      Takes reader offset used value ∧ property offset used value

theorem Yields.property {Result : Type} {reader : Cursor → Except Fault (Result × Cursor)}
    {property : Nat → List Char → Result → Prop} (yields : Yields reader property) {offset : Nat}
    {text : List Char} {value : Result} (takes : Takes reader offset text value) :
    property offset text value := by
  obtain ⟨used, rest, textEq, afterEq, -, holds⟩ := yields _ _ _ _ (takes [])
  obtain rfl : [] = rest := congrArg Cursor.rest afterEq
  rw [List.append_nil, List.append_nil] at textEq
  rw [textEq]
  exact holds

/-! ### The tags of a block -/

/-- What is known of the opening tag of a block from its text. -/
structure IsOpening (offset : Nat) (text : List Char) (opening : BlockOpening) : Prop where
  begin : opening.begin = offset
  span : opening.span = ⟨offset, offset + byteSize text⟩
  values : ∀ argument ∈ opening.parts.call.named, argument.value.Within offset text
  name : opening.parts.call.callee.name? = some opening.name

/-- What the inside of an opening tag is read from: a call that calls a path. -/
theorem blockOpening_eq_ok {begin cursor after : Cursor} {trimBefore : Bool} {unnamed : Cause}
    {opening : BlockOpening}
    (success : blockOpening begin trimBefore unnamed cursor = .ok (opening, after)) :
    tagCall .braces begin.offset cursor = .ok (opening.parts, after) ∧
      opening.parts.call.callee.name? = some opening.name ∧
      opening.trimBefore = trimBefore ∧ opening.span = begin.spanTo after ∧
      opening.begin = begin.offset := by
  obtain ⟨⟨parts, last⟩, readParts, success⟩ := bind_eq_ok success
  simp only at success
  split at success
  · cases success
  · next isName =>
    cases success
    exact ⟨readParts, isName, rfl, rfl, rfl⟩

/-- An opening tag whose callee is a path. -/
theorem blockOpening_of_tagCall (begin : Cursor) (trimBefore : Bool) (unnamed : Cause)
    {cursor after : Cursor} {parts : CallParts} {name : String}
    (read : tagCall .braces begin.offset cursor = .ok (parts, after))
    (named : parts.call.callee.name? = some name) :
    blockOpening begin trimBefore unnamed cursor =
      .ok (⟨begin.offset, name, parts, trimBefore, begin.spanTo after⟩, after) := by
  simp only [blockOpening, read, bind, Except.bind, named]

/-- The inside of an opening tag is read up to the closing braces and no further. -/
theorem blockOpening_inside {begin : Cursor} {trimBefore : Bool} {unnamed : Cause} {offset : Nat}
    {text : List Char} {opening : BlockOpening} {after : Cursor}
    (success : blockOpening begin trimBefore unnamed ⟨offset, text⟩ = .ok (opening, after)) :
    ∃ inside rest, inside ≠ [] ∧ text = inside ++ (['}', '}'] ++ rest) ∧
      after = ⟨offset + byteSize inside + byteSize ['}', '}'], rest⟩ ∧
      opening.begin = begin.offset ∧
      opening.span = ⟨begin.offset, offset + byteSize inside + byteSize ['}', '}']⟩ ∧
      (∀ argument ∈ opening.parts.call.named, argument.value.Within offset inside) ∧
      opening.parts.call.callee.name? = some opening.name ∧
      ∀ other, blockOpening begin trimBefore unnamed ⟨offset, inside ++ (['}', '}'] ++ other)⟩ =
        .ok (opening, ⟨offset + byteSize inside + byteSize ['}', '}'], other⟩) := by
  obtain ⟨begins, name, parts, trim, span⟩ := opening
  obtain ⟨readParts, named, rfl, rfl, rfl⟩ := blockOpening_eq_ok success
  obtain ⟨inside, rest, rfl, rfl, isCall⟩ := tagCall_isCall readParts
  refine ⟨inside, rest, isCall.nonempty, rfl, rfl, rfl, rfl, isCall.values, named, fun other => ?_⟩
  have reads : tagCall .braces begin.offset ⟨offset, inside ++ (['}', '}'] ++ other)⟩ =
      .ok (parts, ⟨offset + byteSize inside + byteSize ['}', '}'], other⟩) :=
    isCall.tag begin.offset other
  exact blockOpening_of_tagCall begin trim unnamed reads named

/-- A curly tag whose first character is a hash sign opens a block and does not stop content. -/
theorem stop?_hash (present : Bool) (rest : List Char) :
    stop? ('{' :: '{' :: (tilde present ++ '#' :: rest)) = none := by
  cases present <;> rfl

/-- What the opening tag of a block is, unless it is one of the constructs that are refused. -/
theorem blockStart_hash (offset : Nat) (present : Bool) {rest : List Char}
    (plain : rest.head? ≠ some '>' ∧ rest.head? ≠ some '*') :
    blockStart ⟨offset, '{' :: '{' :: (tilde present ++ '#' :: rest)⟩ =
      blockOpening ⟨offset, []⟩ present .unnamedBlock
        ⟨offset + byteSize ('{' :: '{' :: tilde present) + byteSize ['#'], rest⟩ := by
  have starts : (stop? ('{' :: '{' :: (tilde present ++ '#' :: rest))).isNone ∧
      (⟨offset, '{' :: '{' :: (tilde present ++ '#' :: rest)⟩ : Cursor).startsWith ['{', '{'] ∧
      ¬ (⟨offset, '{' :: '{' :: (tilde present ++ '#' :: rest)⟩ : Cursor).startsWith
        ['{', '{', '{'] = true := by
    refine ⟨by rw [stop?_hash]; rfl, rfl, ?_⟩
    cases present <;> exact Bool.false_ne_true
  have skipped : (⟨offset + byteSize ('{' :: '{' :: tilde present), '#' :: rest⟩ : Cursor).skip 1 =
      ⟨offset + byteSize ('{' :: '{' :: tilde present) + byteSize ['#'], rest⟩ :=
    Cursor.skip_append _ ['#'] rest
  rw [blockStart, if_pos starts, skip_braces (fun _ => by simp)]
  simp only [skipped]
  split
  · next equal => cases equal; exact absurd rfl plain.1
  · next equal => cases equal; exact absurd rfl plain.2
  · rfl
  · next others => exact absurd rfl (others rest)

/-- The opening tag of a block has a hash sign behind its braces and its `~` marker. -/
theorem blockStart_eq_ok {offset : Nat} {text : List Char} {opening : BlockOpening} {after : Cursor}
    (success : blockStart ⟨offset, text⟩ = .ok (opening, after)) :
    ∃ present tail, text = '{' :: '{' :: (tilde present ++ '#' :: tail) ∧
      tail.head? ≠ some '>' ∧ tail.head? ≠ some '*' := by
  unfold blockStart at success
  split at success
  · next tests =>
    obtain ⟨tail, rfl⟩ := List.isPrefixOf_iff_prefix.mp tests.2.1
    obtain ⟨present, tail, rfl, other⟩ := Cursor.exists_tilde tail
    simp only [List.cons_append, List.nil_append, skip_braces other] at success
    split at success
    · cases success
    · cases success
    · next tail notPartial notDecorator =>
      refine ⟨present, tail, rfl, fun starts => ?_, fun starts => ?_⟩
      · obtain ⟨rest, rfl⟩ := List.head?_eq_some_iff.mp starts
        exact notPartial rest rfl
      · obtain ⟨rest, rfl⟩ := List.head?_eq_some_iff.mp starts
        exact notDecorator rest rfl
    · cases success
  · cases success

theorem blockStart_yields : Yields blockStart IsOpening := by
  intro offset text opening after success
  obtain ⟨present, tail, rfl, plain⟩ := blockStart_eq_ok success
  rw [blockStart_hash offset present plain] at success
  obtain ⟨inside, rest, nonempty, rfl, rfl, begin, span, values, name, again⟩ :=
    blockOpening_inside success
  have place : offset + byteSize ('{' :: '{' :: tilde present) + byteSize ['#'] + byteSize inside +
      byteSize ['}', '}'] =
        offset + byteSize ('{' :: '{' :: (tilde present ++ '#' :: (inside ++ ['}', '}']))) := by
    simp only [byteSize_cons, byteSize_append, byteSize_nil]
    omega
  rw [place] at span again ⊢
  refine ⟨'{' :: '{' :: (tilde present ++ '#' :: (inside ++ ['}', '}'])), rest, by simp, rfl,
    fun other => ?_, begin, span, fun argument member => ?_, name⟩
  · have same : '{' :: '{' :: (tilde present ++ '#' :: (inside ++ ['}', '}'])) ++ other =
        '{' :: '{' :: (tilde present ++ '#' :: (inside ++ (['}', '}'] ++ other))) := by
      simp
    rw [head?_append_left nonempty] at plain
    rw [same, blockStart_hash offset present (by rwa [head?_append_left nonempty]), again]
  · have lead : '{' :: '{' :: (tilde present ++ '#' :: (inside ++ ['}', '}'])) =
        '{' :: '{' :: tilde present ++ (['#'] ++ (inside ++ ['}', '}'])) := by
      simp
    rw [lead]
    exact (((values argument member).append_right _).append_left _).append_left _

end TagMigration.Reader
