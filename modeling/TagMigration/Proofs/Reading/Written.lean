/-
What is spelled out is read back. An expression without spans is printed from its fields, a
space in front of each argument. If its names are words that are no literals and its strings
hold no backslash, then the reader takes the text for the same expression again, up to
spans, wherever the text stands and whatever follows that does not run on in the last word.
-/
import TagMigration.Proofs.Reading.Call

namespace TagMigration

/-! ### What can be written -/

/-- A name that is read as one word. -/
def IsWord (name : String) : Prop :=
  name.toList ≠ [] ∧ ∀ char ∈ name.toList, Reader.isNameChar char = true

/-- The words that are read as literals. -/
def literalWords : List String :=
  ["true", "false", "null", "undefined"]

/-- A literal that is read back as it is written. -/
def Literal.Writable : Literal → Prop
  | .string value => '\\' ∉ value.toList
  | .number digits => Reader.number? digits.toList = some digits.toList
  | .boolean _ => True
  | .null => True
  | .undefined => True

mutual

/-- An expression without spans that is read back as it is written. -/
def Expression.Writable : Expression → Prop
  | .path name span =>
    span = none ∧ IsWord name ∧ name ∉ literalWords ∧
      Reader.number? name.toList ≠ some name.toList
  | .call call span => span = none ∧ call.Writable
  | .literal value span => span = none ∧ value.Writable

/-- A call without spans that is read back as it is written. -/
def Call.Writable : Call → Prop
  | ⟨callee, positional, named⟩ =>
    callee.Writable ∧ WritablePositional positional ∧ WritableNamed named

/-- Positional arguments that are read back as they are written. -/
def WritablePositional : List Expression → Prop
  | [] => True
  | argument :: rest => argument.Writable ∧ WritablePositional rest

/-- Named arguments that are read back as they are written. -/
def WritableNamed : List NamedArgument → Prop
  | [] => True
  | argument :: rest => argument.Writable ∧ WritableNamed rest

/-- A named argument that is read back as it is written. -/
def NamedArgument.Writable : NamedArgument → Prop
  | ⟨key, value, span⟩ => span = none ∧ IsWord key ∧ value.Writable

end

namespace Reader

/-! ### Telling the kinds of arguments apart -/

/-- What may follow an argument: no character of its last word, and behind blanks neither a bar nor
an equals sign. -/
def Separates (tail : List Char) : Prop :=
  Halts isNameChar tail ∧ ∃ char rest, tail.dropWhile isBlank = char :: rest ∧
    char ≠ '|' ∧ char ≠ '='

theorem separates_space {text : List Char} {char : Char} {rest : List Char}
    (first : text = char :: rest) (notBlank : isBlank char = false) (notBar : char ≠ '|')
    (notEquals : char ≠ '=') (back : List Char) : Separates (' ' :: text ++ back) := by
  subst first
  refine ⟨halts_cons.mpr (by decide), char, rest ++ back, ?_, notBar, notEquals⟩
  have skipped := @dropWhile_run isBlank [' '] (char :: (rest ++ back)) (List.all_eq_true.mp rfl)
    (halts_cons.mpr notBlank)
  simpa using skipped

theorem separates_closer (closer : Closer) (trim : Bool) (back : List Char) :
    Separates (tilde trim ++ (closer.chars ++ back)) := by
  cases trim with
  | true => exact ⟨halts_cons.mpr (by decide), '~', _, rfl, by decide, by decide⟩
  | false =>
    cases closer with
    | braces => exact ⟨halts_cons.mpr (by decide), '}', _, rfl, by decide, by decide⟩
    | tripleBraces => exact ⟨halts_cons.mpr (by decide), '}', _, rfl, by decide, by decide⟩
    | parenthesis => exact ⟨halts_cons.mpr (by decide), ')', _, rfl, by decide, by decide⟩

/-- A word introduces block params only in front of a bar. -/
theorem paramsIntro?_run {run tail : List Char} (named : ∀ char ∈ run, isNameChar char = true)
    (halts : Halts isNameChar tail) (noBar : ∀ rest, tail.dropWhile isBlank ≠ '|' :: rest) :
    paramsIntro? (run ++ tail) = none := by
  unfold paramsIntro?
  split
  · next text equal =>
    match run with
    | [] => exact absurd (halts _ _ equal) (by decide)
    | [_] =>
      obtain ⟨-, equal⟩ := List.cons.inj equal
      exact absurd (halts _ _ equal) (by decide)
    | [_, _] =>
      obtain rfl : tail = text := (List.cons.inj (List.cons.inj equal).2).2
      obtain ⟨blanks, rest, rfl, blank, stops⟩ := exists_run isBlank tail
      rw [dropWhile_run blank stops] at noBar
      simp only [takeWhile_run blank stops, List.drop_left]
    | _ :: _ :: char :: more =>
      obtain rfl : char :: (more ++ tail) = text := (List.cons.inj (List.cons.inj equal).2).2
      have letter := isBlank_of_isNameChar (named char (by simp))
      simp only [takeWhile_of_halts (halts_cons.mpr letter)]
      split <;> rfl
  · rfl

/-- A word is a key only in front of an equals sign. -/
theorem namedKey?_run {run tail : List Char} (named : ∀ char ∈ run, isNameChar char = true)
    (halts : Halts isNameChar tail) (noEquals : ∀ rest, tail.dropWhile isBlank ≠ '=' :: rest) :
    namedKey? (run ++ tail) = none := by
  obtain ⟨blanks, rest, rfl, blank, stops⟩ := exists_run isBlank tail
  rw [dropWhile_run blank stops] at noEquals
  have keyEq : nameRun (run ++ (blanks ++ rest)) = run := takeWhile_run named halts
  have dropEq : (run ++ (blanks ++ rest)).drop (run.length + blanks.length) = rest := by
    rw [← List.append_assoc, ← List.length_append, List.drop_left]
  simp only [namedKey?, keyEq, List.drop_left, takeWhile_run blank stops, dropEq]

/-! ### Expressions that are read back -/

/-- The text is read as the expression up to spans, wherever it stands, and where an argument may
stand it is taken for a positional one. -/
structure ReadsBack (text : List Char) (expression : Expression) : Prop where
  first : ∃ char rest, text = char :: rest ∧ isBlank char = false ∧
    char ∉ ['|', '=', '~', '}', ')']
  argument : ∀ tail, Separates tail →
    paramsIntro? (text ++ tail) = none ∧ namedKey? (text ++ tail) = none
  reads : ∀ offset, ∃ read : Expression, read.mapSpans eraseSpan = expression ∧
    read.span = some ⟨offset, offset + byteSize text⟩ ∧
    ∀ size rest, text.length ≤ size → Halts isNameChar rest →
      expressionWithin size ⟨offset, text ++ rest⟩ = .ok (read, ⟨offset + byteSize text, rest⟩)

theorem runExpression_mapSpans (change : Option Span → Option Span) (run rest : List Char)
    (span : Option Span) :
    (runExpression run rest span).mapSpans change = runExpression run rest (change span) := by
  simp only [runExpression]
  split
  · rfl
  · exact wordExpression_mapSpans change run span

theorem runExpression_span (run rest : List Char) (span : Option Span) :
    (runExpression run rest span).span = span := by
  simp only [runExpression]
  split
  · rfl
  · exact wordExpression_span run span

/-- A run of name characters is read as the word or number that it is. -/
theorem readsBack_run {run : List Char} (nonempty : run ≠ [])
    (named : ∀ char ∈ run, isNameChar char = true) :
    ReadsBack run (runExpression run [] none) := by
  obtain ⟨char, rest, rfl⟩ := List.exists_cons_of_ne_nil nonempty
  have first := named char List.mem_cons_self
  have differs (letter : Char) (unnamed : isNameChar letter = false) : char ≠ letter := by
    rintro rfl
    rw [unnamed] at first
    cases first
  refine ⟨⟨char, rest, rfl, isBlank_of_isNameChar first, ?_⟩, fun tail separates => ?_,
    fun offset => ⟨_, runExpression_mapSpans eraseSpan _ _ _, runExpression_span _ _ _,
      fun size tail short halts => ?_⟩⟩
  · intro member
    have unnamed : (!isNameChar char) = true :=
      List.all_eq_true.mp (show ['|', '=', '~', '}', ')'].all (!isNameChar ·) = true from rfl) char
        member
    exact differs char (by simpa using unnamed) rfl
  · obtain ⟨halts, next, more, equal, notBar, notEquals⟩ := separates
    refine ⟨paramsIntro?_run named halts fun rest bar => ?_,
      namedKey?_run named halts fun rest equals => ?_⟩
    · rw [equal] at bar
      exact notBar (List.cons.inj bar).1
    · rw [equal] at equals
      exact notEquals (List.cons.inj equals).1
  · obtain ⟨size, rfl⟩ := Nat.exists_eq_add_one_of_ne_zero (Nat.ne_of_gt
      (Nat.lt_of_lt_of_le (List.length_pos_iff.mpr nonempty) short))
    rw [List.cons_append, expressionWithin_char size offset (differs '(' (by decide)),
      if_neg (by simp [differs '"' (by decide), differs '\'' (by decide)]), ← List.cons_append,
      atom_run offset nonempty named halts, runExpression_again halts halts_nil]

/-! ### Strings -/

/-- A text without backslashes and quotes is read up to the quote. -/
theorem quotedString?_plain {quote : Char} (isQuote : quote ≠ '\\') {value : List Char}
    (plain : ∀ char ∈ value, char ≠ '\\' ∧ char ≠ quote) (rest : List Char) :
    quotedString? quote (value ++ quote :: rest) = some (value, value.length + 1) := by
  induction value with
  | nil => rw [List.nil_append, quotedString?_cons quote isQuote, if_pos rfl]; rfl
  | cons char value inductionHypothesis =>
    obtain ⟨notBackslash, notQuote⟩ := plain char List.mem_cons_self
    rw [List.cons_append, quotedString?_cons quote notBackslash, if_neg notQuote,
      inductionHypothesis fun other member => plain other (List.mem_cons_of_mem char member)]
    rfl

/-- A backslash in front of a double quote is dropped again. -/
theorem quotedString?_escapeQuotes {value : List Char} (plain : '\\' ∉ value) (rest : List Char) :
    quotedString? '"' (escapeQuotes value ++ '"' :: rest) =
      some (value, (escapeQuotes value).length + 1) := by
  induction value with
  | nil => rfl
  | cons char value inductionHypothesis =>
    have inner := inductionHypothesis fun member => plain (List.mem_cons_of_mem char member)
    by_cases isQuote : char = '"'
    · subst isQuote
      rw [escapeQuotes, if_pos rfl, List.cons_append, List.cons_append, quotedString?, inner]
      rfl
    · have notBackslash : char ≠ '\\' := by
        rintro rfl
        exact plain List.mem_cons_self
      rw [escapeQuotes, if_neg isQuote, List.cons_append, quotedString?_cons '"' notBackslash,
        if_neg isQuote, inner]
      rfl

theorem stringLiteral_quoted {quote : Char} {inside value : List Char}
    (found : ∀ rest, quotedString? quote (inside ++ quote :: rest) =
      some (value, inside.length + 1)) (offset : Nat) :
    Takes (stringLiteral quote) offset (quote :: inside ++ [quote])
      (.literal (.string (String.ofList value))
        (some ⟨offset, offset + byteSize (quote :: inside ++ [quote])⟩)) := by
  intro rest
  have length : (quote :: inside ++ [quote]).length = inside.length + 1 + 1 := by simp
  have inner : (quote :: inside ++ [quote] ++ rest).drop 1 = inside ++ quote :: rest := by simp
  simp only [stringLiteral, inner, found]
  rw [Cursor.skip_append_of_length offset length, Cursor.spanTo]

/-- A string that is read back from its quotes is read back as an expression. -/
theorem readsBack_quoted {quote : Char} (isQuote : quote = '"' ∨ quote = '\'')
    {inside value : List Char}
    (found : ∀ rest, quotedString? quote (inside ++ quote :: rest) =
      some (value, inside.length + 1)) :
    ReadsBack (quote :: inside ++ [quote]) (.literal (.string (String.ofList value)) none) := by
  have takes := stringLiteral_quoted found
  have unnested : quote ≠ '(' := by rcases isQuote with rfl | rfl <;> decide
  refine ⟨⟨quote, inside ++ [quote], rfl, ?_, ?_⟩, fun tail _ => ?_,
    fun offset => ⟨.literal (.string (String.ofList value)) (some ⟨offset, _⟩), rfl, rfl,
      fun size rest short _ => ?_⟩⟩
  · rcases isQuote with rfl | rfl <;> decide
  · rcases isQuote with rfl | rfl <;> decide
  · rcases isQuote with rfl | rfl <;> exact ⟨rfl, rfl⟩
  · obtain ⟨size, rfl⟩ := Nat.exists_eq_add_one_of_ne_zero (Nat.ne_of_gt
      (Nat.lt_of_lt_of_le (show 0 < (quote :: inside ++ [quote]).length by simp) short))
    refine (expressionWithin_char size offset unnested (inside ++ [quote] ++ rest)).trans ?_
    rw [if_pos isQuote]
    exact takes offset rest

theorem readsBack_string {value : String} (plain : '\\' ∉ value.toList) :
    ReadsBack (Literal.string value).print (.literal (.string value) none) := by
  have same : String.ofList value.toList = value := String.ofList_toList
  cases single : value.toList.contains '"' && !value.toList.contains '\'' with
  | true =>
    have text : (Literal.string value).print = '\'' :: value.toList ++ ['\''] := if_pos single
    rw [Bool.and_eq_true, Bool.not_eq_true'] at single
    have found := quotedString?_plain (show '\'' ≠ '\\' by decide) fun char member =>
      show char ≠ '\\' ∧ char ≠ '\'' from
        ⟨fun equal => plain (equal ▸ member),
          fun equal => Bool.eq_false_iff.mp single.2 (List.elem_iff.mpr (equal ▸ member))⟩
    have readsBack := readsBack_quoted (.inr rfl) found
    rwa [same, ← text] at readsBack
  | false =>
    have text : (Literal.string value).print = '"' :: escapeQuotes value.toList ++ ['"'] :=
      if_neg (Bool.eq_false_iff.mp single)
    have readsBack := readsBack_quoted (.inl rfl) (quotedString?_escapeQuotes plain)
    rwa [same, ← text] at readsBack

/-! ### Words and literals -/

theorem readsBack_path {name : String} (isWord : IsWord name) (notLiteral : name ∉ literalWords)
    (notNumber : number? name.toList ≠ some name.toList) :
    ReadsBack name.toList (.path name none) := by
  have readsBack := readsBack_run isWord.1 isWord.2
  simp only [literalWords, List.mem_cons, List.not_mem_nil, or_false, not_or] at notLiteral
  obtain ⟨notTrue, notFalse, notNull, notUndefined⟩ := notLiteral
  have path : runExpression name.toList [] none = .path name none := by
    rw [runExpression, if_neg (by rwa [List.append_nil])]
    simp only [wordExpression, String.ofList_toList]
    rw [if_neg notTrue, if_neg notFalse, if_neg notNull, if_neg notUndefined]
  rwa [path] at readsBack

theorem readsBack_literal {value : Literal} (writable : value.Writable) :
    ReadsBack value.print (.literal value none) := by
  have word (letters : List Char) (nonempty : letters ≠ [])
      (named : ∀ char ∈ letters, isNameChar char = true) := readsBack_run nonempty named
  cases value with
  | string value => exact readsBack_string writable
  | number digits =>
    obtain ⟨tail, -, nonempty, named⟩ := number?_eq_some writable
    have number : runExpression digits.toList [] none = .literal (.number digits) none := by
      rw [runExpression, if_pos (by rwa [List.append_nil]), String.ofList_toList]
    rw [← number]
    exact readsBack_run nonempty named
  | boolean value =>
    cases value with
    | true => exact word ['t', 'r', 'u', 'e'] (by decide) (List.all_eq_true.mp rfl)
    | false => exact word ['f', 'a', 'l', 's', 'e'] (by decide) (List.all_eq_true.mp rfl)
  | null => exact word ['n', 'u', 'l', 'l'] (by decide) (List.all_eq_true.mp rfl)
  | undefined =>
    exact word ['u', 'n', 'd', 'e', 'f', 'i', 'n', 'e', 'd'] (by decide) (List.all_eq_true.mp rfl)

/-! ### Calls -/

/-- A reader of nested expressions that reads all that `expressionWithin` reads of texts of at most
`bound` characters. -/
def Nests (nested : Cursor → Except Fault (Expression × Cursor)) (bound : Nat) : Prop :=
  ∀ offset text rest result, text.length ≤ bound →
    (∀ size, text.length ≤ size → expressionWithin size ⟨offset, text ++ rest⟩ = result) →
      nested ⟨offset, text ++ rest⟩ = result

theorem nests_expressionWithin (bound : Nat) : Nests (expressionWithin bound) bound :=
  fun _ _ _ _ short reads => reads bound short

theorem nests_expression (bound : Nat) : Nests expression bound := by
  intro offset text rest result _ reads
  exact reads _ (by simp)

section Calls

variable {nested : Cursor → Except Fault (Expression × Cursor)} {closer : Closer} {bound : Nat}
  {offset : Nat} {text inside : List Char} {expression read : Expression} {given : Arguments}

theorem closer?_of_first {char : Char} (other : char ∉ ['|', '=', '~', '}', ')'])
    (rest : List Char) : closer? closer ⟨offset, char :: rest⟩ = none := by
  simp only [List.mem_cons, List.not_mem_nil, or_false, not_or] at other
  obtain ⟨-, -, notTilde, notBrace, notParenthesis⟩ := other
  cases closer <;>
    simp [closer?, Cursor.startsWith, Closer.chars, List.isPrefixOf, Ne.symm notTilde,
      Ne.symm notBrace, Ne.symm notParenthesis]

/-- A positional argument behind a space. -/
theorem Closes.space (nests : Nests nested bound) (readsBack : ReadsBack text expression)
    (reads : ∀ size rest, text.length ≤ size → Halts isNameChar rest →
      expressionWithin size ⟨offset + byteSize [' '], text ++ rest⟩ =
        .ok (read, ⟨offset + byteSize [' '] + byteSize text, rest⟩))
    (separates : ∀ rest, Separates (inside ++ (closer.chars ++ rest)))
    (more : Closes nested closer bound false (offset + byteSize (' ' :: text)) inside given) :
    Closes nested closer bound false offset (' ' :: text ++ inside)
      { given with positional := read :: given.positional } := by
  obtain ⟨char, letters, rfl, notBlank, other⟩ := readsBack.first
  have halts : Halts isBlank (char :: letters) := halts_cons.mpr notBlank
  obtain ⟨noParams, noKey⟩ := readsBack.argument _ (separates [])
  have place : offset + byteSize [' '] + byteSize (char :: letters) =
      offset + byteSize (' ' :: char :: letters) := by
    rw [Nat.add_assoc, ← byteSize_append]
    rfl
  refine @Closes.blank _ _ _ _ _ _ _ [' '] (List.all_eq_true.mp rfl) (halts_cons.mpr notBlank) ?_
  refine Closes.positional (List.cons_ne_nil _ _) halts (closer?_of_first other _) noParams noKey
    (fun short rest => nests _ _ _ _ short fun size enough => ?_) (place ▸ more)
  exact reads size _ enough (separates rest).1

/-- A named argument behind a space. -/
theorem Closes.keyword {key : String} (isWord : IsWord key) (nests : Nests nested bound)
    (readsBack : ReadsBack text expression) {sawNamed : Bool}
    (stands : read.span = some ⟨offset + byteSize (' ' :: key.toList ++ ['=']),
      offset + byteSize (' ' :: key.toList ++ ['=']) + byteSize text⟩)
    (reads : ∀ size rest, text.length ≤ size → Halts isNameChar rest →
      expressionWithin size ⟨offset + byteSize (' ' :: key.toList ++ ['=']), text ++ rest⟩ =
        .ok (read, ⟨offset + byteSize (' ' :: key.toList ++ ['=']) + byteSize text, rest⟩))
    (separates : ∀ rest, Separates (inside ++ (closer.chars ++ rest)))
    (more : Closes nested closer bound true
      (offset + byteSize (' ' :: key.toList ++ '=' :: text)) inside given) :
    Closes nested closer bound sawNamed offset (' ' :: key.toList ++ '=' :: text ++ inside)
      { given with named := ⟨key, read, some ⟨offset + byteSize [' '],
        offset + byteSize (' ' :: key.toList ++ '=' :: text)⟩⟩ :: given.named } := by
  obtain ⟨char, letters, rfl, notBlank, other⟩ := readsBack.first
  have place : offset + byteSize [' '] + byteSize (key.toList ++ ([] ++ '=' :: [])) =
      offset + byteSize (' ' :: key.toList ++ ['=']) := by
    rw [Nat.add_assoc, ← byteSize_append]
    rfl
  have placeMore : offset + byteSize (' ' :: key.toList ++ ['=']) + byteSize (char :: letters) =
      offset + byteSize (' ' :: key.toList ++ '=' :: char :: letters) := by
    rw [Nat.add_assoc, ← byteSize_append, List.append_assoc]
    rfl
  have noParams : paramsIntro? (key.toList ++ ([] ++ ['='])) = none :=
    paramsIntro?_run isWord.2 (halts_cons.mpr (by decide)) fun rest bar => nomatch bar
  have haltsKey : Halts isBlank key.toList := fun first _ equal =>
    isBlank_of_isNameChar (isWord.2 first (by rw [equal]; exact List.mem_cons_self))
  have closes := @Closes.named nested closer bound sawNamed (offset + byteSize [' ']) inside given
    key.toList [] [] (char :: letters) read isWord.1 isWord.2 (by simp) (by simp)
    (List.cons_ne_nil _ _) (halts_cons.mpr notBlank) [] noParams
    (fun short rest => ?_) (place ▸ stands) (by rw [place, placeMore]; exact more)
  · have shifted := @Closes.blank _ _ _ _ _ _ _ [' '] (List.all_eq_true.mp rfl)
      ((halts_append (by simp)).mpr ((halts_append isWord.1).mpr haltsKey)) closes
    have text : [' '] ++ (key.toList ++ ([] ++ ['=']) ++ (char :: letters ++ inside)) =
        ' ' :: key.toList ++ '=' :: char :: letters ++ inside := by
      simp
    rwa [String.ofList_toList, text, place, placeMore] at shifted
  · rw [place]
    exact nests _ _ _ _ short fun size enough => reads size _ enough (separates rest).1

end Calls

/-- Positional arguments that are read back in front of whatever else closes the call. -/
structure PositionalReadsBack (text : List Char) (arguments : List Expression) : Prop where
  separates : ∀ tail, Separates tail → Separates (text ++ tail)
  reads : ∀ offset, ∃ read, mapPositional eraseSpan read = arguments ∧
    ∀ {nested closer bound inside given}, Nests nested bound →
      (∀ rest, Separates (inside ++ (closer.chars ++ rest))) →
      Closes nested closer bound false (offset + byteSize text) inside given →
      Closes nested closer bound false offset (text ++ inside)
        { given with positional := read ++ given.positional }

/-- Named arguments that are read back in front of whatever else closes the call. -/
structure NamedReadsBack (text : List Char) (arguments : List NamedArgument) : Prop where
  separates : ∀ tail, Separates tail → Separates (text ++ tail)
  reads : ∀ offset, ∃ read, mapNamed eraseSpan read = arguments ∧
    ∀ {nested closer bound inside given}, Nests nested bound →
      (∀ rest, Separates (inside ++ (closer.chars ++ rest))) →
      (∀ sawNamed, Closes nested closer bound sawNamed (offset + byteSize text) inside given) →
      ∀ sawNamed, Closes nested closer bound sawNamed offset (text ++ inside)
        { given with named := read ++ given.named }

/-- A call that is read back in front of any closer. -/
def CallReadsBack (text : List Char) (call : Call) : Prop :=
  ∀ offset closer trim, (trim = true → closer ≠ .parenthesis) →
    ∃ parts : CallParts, parts.call.mapSpans eraseSpan = call ∧ parts.params = [] ∧
      parts.trimAfter = trim ∧ ∀ {nested bound}, Nests nested bound →
        IsCall nested closer bound offset (text ++ tilde trim) parts

theorem positionalReadsBack_nil : PositionalReadsBack [] [] :=
  ⟨fun _ separates => separates, fun _ => ⟨[], rfl, fun _ _ closes => closes⟩⟩

theorem positionalReadsBack_cons {text rest : List Char} {argument : Expression}
    {arguments : List Expression} (first : ReadsBack text argument)
    (more : PositionalReadsBack rest arguments) :
    PositionalReadsBack (' ' :: text ++ rest) (argument :: arguments) := by
  refine ⟨fun tail _ => ?_, fun offset => ?_⟩
  · obtain ⟨char, letters, equal, notBlank, other⟩ := first.first
    rw [List.append_assoc]
    exact separates_space equal notBlank (by rintro rfl; simp at other)
      (by rintro rfl; simp at other) (rest ++ tail)
  · obtain ⟨read, alike, -, reads⟩ := first.reads (offset + byteSize [' '])
    obtain ⟨others, alikeMore, readsMore⟩ := more.reads (offset + byteSize (' ' :: text))
    refine ⟨read :: others, by rw [mapPositional, alike, alikeMore],
      fun {nested closer bound inside given} nests separates closes => ?_⟩
    rw [byteSize_append, ← Nat.add_assoc] at closes
    rw [List.append_assoc]
    refine Closes.space nests first reads (fun back => ?_) (readsMore nests separates closes)
    rw [List.append_assoc]
    exact more.separates _ (separates back)

theorem namedReadsBack_nil : NamedReadsBack [] [] :=
  ⟨fun _ separates => separates, fun _ => ⟨[], rfl, fun _ _ closes => closes⟩⟩

theorem namedReadsBack_cons {key : String} {text rest : List Char} {value : Expression}
    {arguments : List NamedArgument} (isWord : IsWord key) (first : ReadsBack text value)
    (more : NamedReadsBack rest arguments) :
    NamedReadsBack (' ' :: (key.toList ++ '=' :: text) ++ rest) (⟨key, value, none⟩ :: arguments) := by
  refine ⟨fun tail _ => ?_, fun offset => ?_⟩
  · obtain ⟨char, letters, equal⟩ := List.exists_cons_of_ne_nil isWord.1
    have named := isWord.2 char (by rw [equal]; exact List.mem_cons_self)
    rw [List.append_assoc]
    refine separates_space (by rw [equal, List.cons_append]) (isBlank_of_isNameChar named) ?_ ?_ _
    · rintro rfl
      exact absurd named (by decide)
    · rintro rfl
      exact absurd named (by decide)
  · obtain ⟨read, alike, stands, reads⟩ :=
      first.reads (offset + byteSize (' ' :: key.toList ++ ['=']))
    obtain ⟨others, alikeMore, readsMore⟩ :=
      more.reads (offset + byteSize (' ' :: key.toList ++ '=' :: text))
    refine ⟨⟨key, read, some ⟨offset + byteSize [' '],
      offset + byteSize (' ' :: key.toList ++ '=' :: text)⟩⟩ :: others, ?_,
      fun {nested closer bound inside given} nests separates closes sawNamed => ?_⟩
    · rw [mapNamed, NamedArgument.mapSpans, alike, alikeMore]
      rfl
    · simp only [byteSize_append, ← Nat.add_assoc] at closes
      have closesMore := readsMore nests separates closes true
      rw [List.append_assoc]
      refine Closes.keyword isWord nests first stands reads (fun back => ?_) closesMore
      rw [List.append_assoc]
      exact more.separates _ (separates back)

theorem callReadsBack {text first second : List Char} {callee : Expression}
    {positional : List Expression} {named : List NamedArgument} (calls : ReadsBack text callee)
    (givenFirst : PositionalReadsBack first positional) (givenSecond : NamedReadsBack second named) :
    CallReadsBack (text ++ first ++ second) ⟨callee, positional, named⟩ := by
  intro offset closer trim takes
  obtain ⟨char, letters, equal, notBlank, -⟩ := calls.first
  have nonempty : text ≠ [] := by simp [equal]
  obtain ⟨read, alike, -, reads⟩ := calls.reads offset
  obtain ⟨readFirst, alikeFirst, closesFirst⟩ := givenFirst.reads (offset + byteSize text)
  obtain ⟨readSecond, alikeSecond, closesSecond⟩ :=
    givenSecond.reads (offset + byteSize text + byteSize first)
  refine ⟨⟨⟨read, readFirst, readSecond⟩, [], trim⟩, ?_, rfl, rfl, fun {nested bound} nests => ?_⟩
  · rw [Call.mapSpans, alike, alikeFirst, alikeSecond]
  · have separates (rest : List Char) :
        Separates (second ++ tilde trim ++ (closer.chars ++ rest)) := by
      rw [List.append_assoc]
      exact givenSecond.separates _ (separates_closer closer trim rest)
    have closes := closesFirst nests separates (closesSecond nests (separates_closer closer trim)
      (fun _ => Closes.finish trim takes) false)
    simp only [List.append_nil] at closes
    have inside : text ++ first ++ second ++ tilde trim =
        [] ++ (text ++ (first ++ (second ++ tilde trim))) := by
      simp
    rw [inside]
    refine closes.callee (List.forall_mem_nil _) nonempty (by rw [equal]; exact halts_cons.mpr notBlank)
      fun short rest => nests _ _ _ _ short fun size enough => ?_
    have halts : Halts isNameChar (first ++ (second ++ tilde trim) ++ (closer.chars ++ rest)) := by
      rw [List.append_assoc]
      exact (givenFirst.separates _ (separates rest)).1
    exact reads size _ enough halts

theorem readsBack_call {text : List Char} {call : Call} (callBack : CallReadsBack text call) :
    ReadsBack ('(' :: text ++ [')']) (.call call none) := by
  refine ⟨⟨'(', text ++ [')'], rfl, by decide, by decide⟩, fun tail _ => ⟨rfl, rfl⟩,
    fun offset => ?_⟩
  obtain ⟨parts, alike, noParams, -, isCall⟩ :=
    callBack (offset + byteSize ['(']) .parenthesis false (fun absurd => nomatch absurd)
  refine ⟨.call parts.call (some ⟨offset, offset + byteSize ('(' :: text ++ [')'])⟩), ?_, rfl,
    fun size rest short _ => ?_⟩
  · rw [Expression.mapSpans, alike]
    rfl
  · simp only [List.length_append, List.length_cons, List.length_nil] at short
    obtain ⟨size, rfl⟩ :=
      Nat.exists_eq_add_one_of_ne_zero (Nat.ne_of_gt (show 0 < size by omega))
    have isCall := isCall (nests_expressionWithin size)
    rw [tilde, if_neg (by decide), List.append_nil] at isCall
    exact isCall.parenthesised (by rw [noParams]; rfl) (by omega) rest

/-! ### Every expression that can be written -/

mutual

/-- An expression that can be written is read back from its text. -/
theorem exists_readsBack : ∀ expression : Expression, expression.Writable →
    ∃ text, (∀ source, expression.print source = .ok text) ∧ ReadsBack text expression
  | .path name span, writable => by
    obtain ⟨rfl, isWord, notLiteral, notNumber⟩ := writable
    exact ⟨name.toList, fun source => by rw [Expression.print, copyOr],
      readsBack_path isWord notLiteral notNumber⟩
  | .literal value span, writable => by
    obtain ⟨rfl, writable⟩ := writable
    exact ⟨value.print, fun source => by rw [Expression.print, copyOr],
      readsBack_literal writable⟩
  | .call call span, writable => by
    obtain ⟨rfl, writable⟩ := writable
    obtain ⟨text, prints, callBack⟩ := exists_callReadsBack call writable
    refine ⟨'(' :: text ++ [')'], fun source => ?_, readsBack_call callBack⟩
    rw [Expression.print, copyOr, prints]
    rfl

/-- A call that can be written is read back from its text. -/
theorem exists_callReadsBack : ∀ call : Call, call.Writable →
    ∃ text, (∀ source, call.print source = .ok text) ∧ CallReadsBack text call
  | ⟨callee, positional, named⟩, ⟨writable, writableFirst, writableSecond⟩ => by
    obtain ⟨text, prints, calls⟩ := exists_readsBack callee writable
    obtain ⟨first, printsFirst, givenFirst⟩ := exists_positionalReadsBack positional writableFirst
    obtain ⟨second, printsSecond, givenSecond⟩ := exists_namedReadsBack named writableSecond
    refine ⟨text ++ first ++ second, fun source => ?_, callReadsBack calls givenFirst givenSecond⟩
    rw [Call.print, prints, printsFirst, printsSecond]
    rfl

theorem exists_positionalReadsBack : ∀ arguments : List Expression, WritablePositional arguments →
    ∃ text, (∀ source, printPositional source arguments = .ok text) ∧
      PositionalReadsBack text arguments
  | [], _ => ⟨[], fun source => by rw [printPositional], positionalReadsBack_nil⟩
  | argument :: arguments, ⟨writable, writableMore⟩ => by
    obtain ⟨text, prints, first⟩ := exists_readsBack argument writable
    obtain ⟨rest, printsMore, more⟩ := exists_positionalReadsBack arguments writableMore
    refine ⟨' ' :: text ++ rest, fun source => ?_, positionalReadsBack_cons first more⟩
    rw [printPositional, prints, printsMore]
    rfl

theorem exists_namedReadsBack : ∀ arguments : List NamedArgument, WritableNamed arguments →
    ∃ text, (∀ source, printNamed source arguments = .ok text) ∧ NamedReadsBack text arguments
  | [], _ => ⟨[], fun source => by rw [printNamed], namedReadsBack_nil⟩
  | ⟨key, value, span⟩ :: arguments, ⟨⟨noSpan, isWord, writable⟩, writableMore⟩ => by
    subst noSpan
    obtain ⟨text, prints, first⟩ := exists_readsBack value writable
    obtain ⟨rest, printsMore, more⟩ := exists_namedReadsBack arguments writableMore
    refine ⟨' ' :: (key.toList ++ '=' :: text) ++ rest, fun source => ?_,
      namedReadsBack_cons isWord first more⟩
    rw [printNamed, NamedArgument.print, copyOr, prints, printsMore]
    rfl

end

end Reader

end TagMigration
