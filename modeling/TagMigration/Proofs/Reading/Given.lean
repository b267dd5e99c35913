/-
Where the arguments of a call come from. A key is a run of name characters, a value is an
expression that was read at some place in the source, and a block param is a word without a bar in
it. This is all that a tag has to know of a call to write its arguments as attributes.
-/
import TagMigration.Proofs.Reading.Cuts

namespace TagMigration

/-! ### Words -/

theorem mem_wordsFrom {text word found : List Char}
    (plain : ∀ char ∈ word, isBlank char = false) (member : found ∈ wordsFrom word text) :
    found ≠ [] ∧ ∀ char ∈ found, isBlank char = false ∧ char ∈ word ++ text := by
  induction text generalizing word found with
  | nil =>
    rw [wordsFrom] at member
    split at member
    · cases member
    · next someLetters =>
      obtain rfl := List.mem_singleton.mp member
      refine ⟨by simpa using someLetters, fun char inside => ⟨plain char inside, ?_⟩⟩
      exact List.mem_append_left _ inside
  | cons first text inductionHypothesis =>
    have later {other : List Char} {char : Char} (inside : char ∈ other ++ text)
        (among : ∀ char ∈ other, char ∈ word ++ first :: text) : char ∈ word ++ first :: text := by
      rcases List.mem_append.mp inside with inside | inside
      · exact among char inside
      · exact List.mem_append_right _ (List.mem_cons_of_mem _ inside)
    have fresh {found : List Char} (member : found ∈ wordsFrom [] text) : found ≠ [] ∧
        ∀ char ∈ found, isBlank char = false ∧ char ∈ word ++ first :: text := by
      obtain ⟨nonempty, letters⟩ := inductionHypothesis (List.forall_mem_nil _) member
      exact ⟨nonempty, fun char inside => ⟨(letters char inside).1,
        later (letters char inside).2 (List.forall_mem_nil _)⟩⟩
    rw [wordsFrom] at member
    split at member
    · split at member
      · exact fresh member
      · next someLetters =>
        rcases List.mem_cons.mp member with rfl | member
        · exact ⟨by simpa using someLetters, fun char inside =>
            ⟨plain char inside, List.mem_append_left _ inside⟩⟩
        · exact fresh member
    · next letter =>
      have plainWord : ∀ char ∈ word ++ [first], isBlank char = false := by
        intro char inside
        rcases List.mem_append.mp inside with inside | inside
        · exact plain char inside
        · rw [List.mem_singleton.mp inside]
          exact Bool.eq_false_iff.mpr letter
      obtain ⟨nonempty, letters⟩ := inductionHypothesis plainWord member
      refine ⟨nonempty, fun char inside => ⟨(letters char inside).1, ?_⟩⟩
      simpa using (letters char inside).2

/-- Letters are added to the word that is being read. -/
theorem wordsFrom_append {letters : List Char} (plain : ∀ char ∈ letters, isBlank char = false)
    (word rest : List Char) : wordsFrom word (letters ++ rest) = wordsFrom (word ++ letters) rest := by
  induction letters generalizing word with
  | nil => rw [List.nil_append, List.append_nil]
  | cons char letters inductionHypothesis =>
    obtain ⟨first, others⟩ := List.forall_mem_cons.mp plain
    rw [List.cons_append, wordsFrom, first, if_neg Bool.false_ne_true, inductionHypothesis others,
      List.append_assoc, List.singleton_append]

/-- Words with a space between them are these words. -/
theorem words_intercalate : ∀ {found : List (List Char)},
    (∀ word ∈ found, word ≠ [] ∧ ∀ char ∈ word, isBlank char = false) →
    words ([' '].intercalate found) = found
  | [], _ => rfl
  | [word], isWord => by
    obtain ⟨nonempty, plain⟩ := isWord word List.mem_cons_self
    have whole := wordsFrom_append plain [] []
    rw [List.append_nil, List.nil_append, wordsFrom, if_neg (by simpa using nonempty)] at whole
    rw [List.intercalate_singleton, words, whole]
  | word :: second :: rest, isWord => by
    obtain ⟨nonempty, plain⟩ := isWord word List.mem_cons_self
    have others := words_intercalate (List.forall_mem_cons.mp isWord).2
    rw [List.intercalate_cons_cons, List.append_assoc, words, wordsFrom_append plain,
      List.nil_append, List.singleton_append, wordsFrom, if_pos (by decide),
      if_neg (by simpa using nonempty)]
    exact congrArg (word :: ·) others

/-- What holds of the separator and of the parts holds of the parts joined. -/
theorem forall_mem_intercalate {property : Char → Prop} {separator : List Char}
    (between : ∀ char ∈ separator, property char) : ∀ {parts : List (List Char)},
    (∀ part ∈ parts, ∀ char ∈ part, property char) →
    ∀ char ∈ separator.intercalate parts, property char
  | [], _ => List.forall_mem_nil _
  | [part], inside => by
    rw [List.intercalate_singleton]
    exact inside part List.mem_cons_self
  | part :: second :: rest, inside => by
    obtain ⟨first, others⟩ := List.forall_mem_cons.mp inside
    rw [List.intercalate_cons_cons, List.forall_mem_append, List.forall_mem_append]
    exact ⟨⟨first, between⟩, forall_mem_intercalate between others⟩

/-- What stands before a character does not hold it. -/
theorem not_mem_of_before? {char : Char} {text head : List Char}
    (found : before? [char] text = some head) : char ∉ head := by
  induction text generalizing head with
  | nil => cases found
  | cons first text inductionHypothesis =>
    rw [before?] at found
    split at found
    · cases found
      exact List.not_mem_nil
    · next absent =>
      obtain ⟨inner, foundInner, rfl⟩ := Option.map_eq_some_iff.mp found
      rw [List.mem_cons, not_or]
      refine ⟨?_, inductionHypothesis foundInner⟩
      rintro rfl
      exact absent (by simp)

/-- The first place of a character is behind all that does not hold it. -/
theorem before?_of_not_mem {char : Char} {head : List Char} (absent : char ∉ head)
    (rest : List Char) : before? [char] (head ++ char :: rest) = some head := by
  induction head with
  | nil => simp [before?]
  | cons first head inductionHypothesis =>
    rw [List.mem_cons, not_or] at absent
    have differs : [char].isPrefixOf (first :: (head ++ char :: rest)) = false := by
      simp [List.isPrefixOf, absent.1]
    rw [List.cons_append, before?, differs, if_neg Bool.false_ne_true, inductionHypothesis absent.2]
    rfl

namespace Reader

/-! ### Block params -/

/-- A name that can stand between the bars of block params. -/
structure IsParam (name : String) : Prop where
  nonempty : name.toList ≠ []
  plain : ∀ char ∈ name.toList, isBlank char = false
  unbarred : '|' ∉ name.toList

theorem blockParams_isParam {cursor after : Cursor} {names : List String}
    (success : blockParams cursor = .ok (names, after)) : ∀ name ∈ names, IsParam name := by
  rw [blockParams] at success
  split at success
  · cases success
  · next inside found =>
    simp only at success
    split at success
    · cases success
    · cases success
      intro name member
      obtain ⟨word, isWord, rfl⟩ := List.mem_map.mp member
      obtain ⟨nonempty, letters⟩ := mem_wordsFrom (List.forall_mem_nil _) isWord
      refine ⟨?_, fun char letter => ?_, fun barred => ?_⟩
      · rwa [String.toList_ofList]
      · rw [String.toList_ofList] at letter
        exact (letters char letter).1
      · rw [String.toList_ofList] at barred
        exact not_mem_of_before? found (letters _ barred).2

/-- Names with a space between them, up to a bar, are block params. -/
theorem takes_blockParams {names : List String} (someName : names ≠ [])
    (isParam : ∀ name ∈ names, IsParam name) (offset : Nat) :
    Takes blockParams offset ((" ".intercalate names).toList ++ ['|']) names := by
  intro rest
  have insideEq : (" ".intercalate names).toList = [' '].intercalate (names.map String.toList) :=
    String.toList_intercalate
  generalize (" ".intercalate names).toList = inside at insideEq
  have plain : ∀ char ∈ inside, char ≠ '|' := by
    rw [insideEq]
    refine forall_mem_intercalate (List.forall_mem_singleton.mpr (by decide))
      (List.forall_mem_map.mpr fun name member => ?_)
    rintro char barred rfl
    exact (isParam name member).unbarred barred
  have unbarred : '|' ∉ inside := fun barred => plain _ barred rfl
  have found : (words inside).map String.ofList = names := by
    rw [insideEq, words_intercalate]
    · simp
    · exact List.forall_mem_map.mpr fun name member =>
        ⟨(isParam name member).nonempty, (isParam name member).plain⟩
  have length : (inside ++ ['|']).length = inside.length + 1 := by simp
  have filled : names.isEmpty = false := by simpa using someName
  have starts : before? ['|'] (inside ++ ['|'] ++ rest) = some inside := by
    rw [List.append_assoc]
    exact before?_of_not_mem unbarred rest
  simp only [blockParams, starts, found, filled]
  rw [if_neg Bool.false_ne_true, Cursor.skip_append_of_length offset length]

/-! ### Named arguments -/

/-- The argument was read from the source. -/
structure IsGiven (source : List Char) (argument : NamedArgument) : Prop where
  key : ∀ char ∈ argument.key.toList, isNameChar char = true
  value : ∃ cursor after, Stands source cursor.offset cursor.rest ∧
    expression cursor = .ok (argument.value, after)

/-- The named arguments of a call were read from the source, and the names that it binds are block
params. -/
theorem GivenAs.given {source : List Char} {closer : Closer} {sawNamed : Bool}
    {cursor after : Cursor} {given : Arguments}
    (reads : GivenAs expression closer sawNamed cursor given after)
    (stands : Stands source cursor.offset cursor.rest) :
    (∀ argument ∈ given.named, IsGiven source argument) ∧ ∀ name ∈ given.params, IsParam name := by
  induction reads with
  | closed found => exact ⟨List.forall_mem_nil _, List.forall_mem_nil _⟩
  | params introduced reads more inductionHypothesis =>
    obtain ⟨reached, -⟩ := readsCut_blockParams.onward reads ((reached_self stands).skipBlanks.skip _)
    obtain ⟨isGiven, isParam⟩ := inductionHypothesis reached.stands
    refine ⟨isGiven, ?_⟩
    simp only
    split
    · exact blockParams_isParam reads
    · exact isParam
  | @named sawNamed cursor between after key width value given keyed reads more
      inductionHypothesis =>
    have valuePlace := ((reached_self stands).skipBlanks.skip width).skipBlanks
    obtain ⟨upTo, -⟩ := readsCut_expression.onward reads valuePlace
    obtain ⟨isGiven, isParam⟩ := inductionHypothesis upTo.stands
    obtain ⟨-, -, -, -, isKey, -, -⟩ := namedKey?_eq_some keyed
    refine ⟨List.forall_mem_cons.mpr ⟨⟨?_, _, _, valuePlace.stands, reads⟩, isGiven⟩, isParam⟩
    rwa [String.toList_ofList]
  | positional reads more inductionHypothesis =>
    obtain ⟨upTo, -⟩ := readsCut_expression.onward reads (reached_self stands).skipBlanks
    exact inductionHypothesis upTo.stands

theorem tagCall_given {source : List Char} {closer : Closer} {begin : Nat} {cursor after : Cursor}
    {parts : CallParts} (stands : Stands source cursor.offset cursor.rest)
    (success : tagCall closer begin cursor = .ok (parts, after)) :
    (∀ argument ∈ parts.call.named, IsGiven source argument) ∧
      ∀ name ∈ parts.params, IsParam name := by
  obtain ⟨callee, between, given, readCallee, readGiven, rfl⟩ := callParts_eq_ok success
  obtain ⟨upTo, -⟩ := readsCut_expression.onward readCallee (reached_self stands).skipBlanks
  exact readGiven.given upTo.stands

theorem mustache_given {source : List Char} {cursor after : Cursor} {tag : Mustache}
    (stands : Stands source cursor.offset cursor.rest)
    (success : mustache cursor = .ok (tag, after)) :
    ∀ argument ∈ tag.call.named, IsGiven source argument := by
  obtain ⟨-, -, -, parts, readParts, call, -⟩ := mustache_eq_ok success
  rw [call]
  exact (tagCall_given ((reached_self stands).skip _).eatTilde.stands readParts).1

theorem blockStart_given {source : List Char} {offset : Nat} {text : List Char} {after : Cursor}
    {opening : BlockOpening} (stands : Stands source offset text)
    (success : blockStart ⟨offset, text⟩ = .ok (opening, after)) :
    (∀ argument ∈ opening.parts.call.named, IsGiven source argument) ∧
      ∀ name ∈ opening.parts.params, IsParam name := by
  obtain ⟨present, tail, rfl, plain⟩ := blockStart_eq_ok success
  rw [blockStart_hash offset present plain] at success
  have inside : Stands source
      (offset + byteSize ('{' :: '{' :: tilde present) + byteSize ['#']) tail := by
    have same : '{' :: '{' :: (tilde present ++ '#' :: tail) =
        '{' :: '{' :: tilde present ++ (['#'] ++ tail) := by
      simp
    rw [same] at stands
    exact stands.right.right
  exact tagCall_given inside (blockOpening_eq_ok success).1

end Reader

end TagMigration
