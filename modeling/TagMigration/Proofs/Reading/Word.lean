/-
Words and their ends. A word runs up to the first character that is no name character, a
string up to its quote, block params up to their bar, a call up to its closer. Where each of
these ends is settled by the characters up to the end and, for a word, by the one after.
-/
import TagMigration.Proofs.Reading.Lookahead

namespace TagMigration

/-! ### Reading whatever follows -/

/-- At `offset` the reader takes `text` off the front and yields `value`, whatever follows. -/
def Takes {Result : Type} (reader : Cursor → Except Fault (Result × Cursor)) (offset : Nat)
    (text : List Char) (value : Result) : Prop :=
  ∀ rest, reader ⟨offset, text ++ rest⟩ = .ok (value, ⟨offset + byteSize text, rest⟩)

/-- A reader that does not look past what it takes. -/
def TakesOnly {Result : Type} (reader : Cursor → Except Fault (Result × Cursor)) : Prop :=
  ∀ offset text value after, reader ⟨offset, text⟩ = .ok (value, after) →
    ∃ used rest, text = used ++ rest ∧ after = ⟨offset + byteSize used, rest⟩ ∧
      Takes reader offset used value

/-- A reader that fails at the end of the input takes at least one character. -/
theorem ne_nil_of_takes {Result : Type} {reader : Cursor → Except Fault (Result × Cursor)}
    {offset : Nat} {text : List Char} {value : Result} (takes : Takes reader offset text value)
    (fails : ∀ offset, ∃ fault, reader ⟨offset, []⟩ = .error fault) : text ≠ [] := by
  rintro rfl
  obtain ⟨fault, failure⟩ := fails offset
  have success := takes []
  rw [List.append_nil, failure] at success
  cases success

/-- A sequence succeeds by both of its steps. -/
theorem bind_eq_ok {Failure First Second : Type} {read : Except Failure First}
    {next : First → Except Failure Second} {result : Second}
    (success : read >>= next = .ok result) :
    ∃ value, read = .ok value ∧ next value = .ok result := by
  cases read with
  | error failure => cases success
  | ok value => exact ⟨value, rfl, success⟩

namespace Reader

/-! ### Block params -/

theorem blockParams_takesOnly : TakesOnly blockParams := by
  intro offset text names after success
  simp only [blockParams] at success
  split at success
  · cases success
  · next inside found =>
    split at success
    · cases success
    · next someNames =>
      obtain ⟨rest, rfl⟩ := before?_eq_some found
      have length : (inside ++ ['|']).length = inside.length + 1 := by simp
      rw [Cursor.skip_append_of_length offset length] at success
      cases success
      refine ⟨inside ++ ['|'], rest, rfl, rfl, fun other => ?_⟩
      have again : before? ['|'] (inside ++ ['|'] ++ other) = some inside :=
        before?_append found (by simp)
      simp only [blockParams, again]
      rw [if_neg someNames, Cursor.skip_append_of_length offset length]

/-! ### Closers -/

theorem closer?_eq_some {closer : Closer} {offset : Nat} {text : List Char} {trim : Bool}
    {after : Cursor} (found : closer? closer ⟨offset, text⟩ = some (trim, after)) :
    ∃ rest, text = tilde trim ++ (closer.chars ++ rest) ∧
      after = ⟨offset + byteSize (tilde trim ++ closer.chars), rest⟩ ∧
      (trim = true → closer ≠ .parenthesis) := by
  unfold closer? at found
  split at found
  · next marked =>
    obtain ⟨rest, rfl⟩ := List.isPrefixOf_iff_prefix.mp marked.2
    rw [Cursor.skip_append_of_length offset (List.length_cons ..)] at found
    cases found
    exact ⟨rest, rfl, rfl, fun _ => marked.1⟩
  · split at found
    · next plain =>
      obtain ⟨rest, rfl⟩ := List.isPrefixOf_iff_prefix.mp plain
      rw [Cursor.skip_append_of_length offset rfl] at found
      cases found
      exact ⟨rest, rfl, rfl, fun absurd => nomatch absurd⟩
    · cases found

theorem closer?_tilde (closer : Closer) (offset : Nat) (rest : List Char) (trim : Bool)
    (takes : trim = true → closer ≠ .parenthesis) :
    closer? closer ⟨offset, tilde trim ++ (closer.chars ++ rest)⟩ =
      some (trim, ⟨offset + byteSize (tilde trim ++ closer.chars), rest⟩) := by
  cases trim with
  | true =>
    have marked : (⟨offset, tilde true ++ (closer.chars ++ rest)⟩ : Cursor).startsWith
        ('~' :: closer.chars) = true :=
      List.isPrefixOf_iff_prefix.mpr ⟨rest, rfl⟩
    rw [closer?, if_pos ⟨takes rfl, marked⟩]
    exact congrArg some (congrArg _ (Cursor.skip_append offset ('~' :: closer.chars) rest))
  | false => cases closer <;> rfl

/-- The end of a tag is a `~` marker or none, and two braces. -/
theorem closer?_braces (cursor : Cursor) :
    closer? .braces cursor =
      (cursor.eatTilde.2.eat? ['}', '}']).map fun after => (cursor.eatTilde.1, after) := by
  obtain ⟨offset, text⟩ := cursor
  obtain ⟨present, tail, rfl, other⟩ := Cursor.exists_tilde text
  rw [Cursor.eatTilde_tilde offset other, Cursor.eat?]
  split
  · next closes =>
    obtain ⟨rest, rfl⟩ := List.isPrefixOf_iff_prefix.mp closes
    rw [Cursor.skip_append, Option.map_some, Nat.add_assoc, ← byteSize_append]
    exact closer?_tilde .braces offset rest present fun _ => by decide
  · next unclosed =>
    cases found : closer? .braces ⟨offset, tilde present ++ tail⟩ with
    | none => rfl
    | some ending =>
      obtain ⟨trim, after⟩ := ending
      obtain ⟨rest, equal, -, -⟩ := closer?_eq_some found
      have closed (stands : tail = ['}', '}'] ++ rest) : False :=
        unclosed (List.isPrefixOf_iff_prefix.mpr ⟨rest, stands.symm⟩)
      cases present <;> cases trim
      · exact (closed equal).elim
      · exact absurd (congrArg List.head? equal) (other rfl)
      · exact absurd (List.cons.inj equal).1 (by decide)
      · exact (closed (List.cons.inj equal).2).elim

/-- In front of a closer, whether it is reached does not depend on what follows it. -/
theorem closer?_eq_none_append {closer : Closer} {offset : Nat} {front back other : List Char}
    (nonempty : front ≠ [])
    (absent : closer? closer ⟨offset, front ++ (closer.chars ++ back)⟩ = none) :
    closer? closer ⟨offset, front ++ (closer.chars ++ other)⟩ = none := by
  have long : 1 ≤ front.length := List.length_pos_iff.mpr nonempty
  have same (token : List Char) (short : token.length ≤ closer.chars.length + 1) :
      (⟨offset, front ++ (closer.chars ++ other)⟩ : Cursor).startsWith token =
        (⟨offset, front ++ (closer.chars ++ back)⟩ : Cursor).startsWith token := by
    have fits : token.length ≤ (front ++ closer.chars).length := by
      rw [List.length_append]
      omega
    simp only [Cursor.startsWith]
    rw [← List.append_assoc, ← List.append_assoc, isPrefixOf_append _ _ fits,
      isPrefixOf_append _ _ fits]
  have marked := same ('~' :: closer.chars) (Nat.le_refl _)
  have plain := same closer.chars (Nat.le_succ _)
  simp only [closer?, marked, plain] at absent ⊢
  split at absent
  · cases absent
  · next unmarked =>
    split at absent
    · cases absent
    · next unclosed => rw [if_neg unmarked, if_neg unclosed]

theorem isBlank_of_isNameChar {char : Char} (named : isNameChar char = true) :
    isBlank char = false := by
  simp only [isNameChar, Bool.and_eq_true, Bool.not_eq_true'] at named
  exact named.1

/-- A closer is not reached in front of a name. -/
theorem closer?_of_isNameChar (closer : Closer) (offset : Nat) {char : Char}
    (named : isNameChar char = true) (rest : List Char) :
    closer? closer ⟨offset, char :: rest⟩ = none := by
  have differs (letter : Char) (unnamed : isNameChar letter = false) : ¬ letter = char := by
    rintro rfl
    rw [unnamed] at named
    cases named
  have tilde := differs '~' (by decide)
  have brace := differs '}' (by decide)
  have parenthesis := differs ')' (by decide)
  cases closer <;>
    simp [closer?, Cursor.startsWith, Closer.chars, tilde, brace, parenthesis]

/-! ### Keys and the words before block params -/

/-- Whether a named argument begins here is settled by the characters up to one that is neither
blank nor a name character. -/
theorem namedKey?_stop {front : List Char} {char : Char} (notName : isNameChar char = false)
    (notBlank : isBlank char = false) (back other : List Char) :
    namedKey? (front ++ char :: back) = namedKey? (front ++ char :: other) := by
  have key (back : List Char) : nameRun (front ++ char :: back) = nameRun front :=
    takeWhile_stop notName
  have short : (nameRun front).length ≤ front.length := (List.takeWhile_sublist _).length_le
  have blanks (back : List Char) :
      ((front ++ char :: back).drop (nameRun front).length).takeWhile isBlank =
        (front.drop (nameRun front).length).takeWhile isBlank := by
    rw [List.drop_append_of_le_length short, takeWhile_stop notBlank]
  have within : (nameRun front).length +
      ((front.drop (nameRun front).length).takeWhile isBlank).length ≤ front.length := by
    have := (List.takeWhile_sublist (l := front.drop (nameRun front).length) isBlank).length_le
    rw [List.length_drop] at this
    omega
  simp only [namedKey?, key, blanks]
  rw [List.drop_append_of_le_length within, List.drop_append_of_le_length within]
  cases front.drop ((nameRun front).length +
      ((front.drop (nameRun front).length).takeWhile isBlank).length) with
  | nil => by_cases equals : char = '=' <;> simp [equals]
  | cons first rest => by_cases equals : first = '=' <;> simp [equals]

theorem namedKey?_eq_some {text key : List Char} {width : Nat}
    (found : namedKey? text = some (key, width)) :
    ∃ blanks rest, text = key ++ (blanks ++ '=' :: rest) ∧ key ≠ [] ∧
      (∀ char ∈ key, isNameChar char = true) ∧ (∀ char ∈ blanks, isBlank char = true) ∧
      width = (key ++ (blanks ++ ['='])).length := by
  obtain ⟨run, tail, rfl, named, stopsName⟩ := exists_run isNameChar text
  obtain ⟨blanks, rest, rfl, blank, stopsBlank⟩ := exists_run isBlank tail
  have keyEq : nameRun (run ++ (blanks ++ rest)) = run := takeWhile_run named stopsName
  have dropEq : (run ++ (blanks ++ rest)).drop (run.length + blanks.length) = rest := by
    rw [← List.append_assoc, ← List.length_append, List.drop_left]
  simp only [namedKey?, keyEq, List.drop_left, takeWhile_run blank stopsBlank, dropEq] at found
  split at found
  · next tail =>
    split at found
    · cases found
    · next nonempty =>
      cases found
      refine ⟨blanks, tail, rfl, ?_, named, blank, ?_⟩
      · rintro rfl
        exact nonempty rfl
      · simp only [List.length_append, List.length_cons, List.length_nil]
        omega
  · cases found

theorem namedKey?_append {key blanks : List Char} (someKey : key ≠ [])
    (isKey : ∀ char ∈ key, isNameChar char = true) (blank : ∀ char ∈ blanks, isBlank char = true)
    (rest : List Char) :
    namedKey? (key ++ (blanks ++ '=' :: rest)) =
      some (key, (key ++ (blanks ++ ['='])).length) := by
  have stopsBlank : Halts isBlank ('=' :: rest) := halts_cons.mpr (by decide)
  have stopsName : Halts isNameChar (blanks ++ '=' :: rest) := by
    intro char tail equal
    cases blanks with
    | nil => cases equal; decide
    | cons first blanks =>
      cases equal
      have isBlankChar := blank char List.mem_cons_self
      simp only [isNameChar, isBlankChar, Bool.not_true, Bool.false_and]
  have keyEq : nameRun (key ++ (blanks ++ '=' :: rest)) = key := takeWhile_run isKey stopsName
  have dropEq : (key ++ (blanks ++ '=' :: rest)).drop (key.length + blanks.length) = '=' :: rest := by
    rw [← List.append_assoc, ← List.length_append, List.drop_left]
  simp only [namedKey?, keyEq, List.drop_left, takeWhile_run blank stopsBlank, dropEq]
  rw [if_neg (by simpa using someKey)]
  simp only [List.length_append, List.length_cons, List.length_nil]
  rw [Nat.add_assoc]

theorem notLetter_of_isNameChar_eq_false {char : Char} (notName : isNameChar char = false) :
    char ≠ 'a' ∧ char ≠ 's' := by
  constructor
  · rintro rfl
    exact absurd notName (by decide)
  · rintro rfl
    exact absurd notName (by decide)

theorem paramsIntro?_stop {front : List Char} {char : Char} (notLetter : char ≠ 'a' ∧ char ≠ 's')
    (notBlank : isBlank char = false) (back other : List Char) :
    paramsIntro? (front ++ char :: back) = paramsIntro? (front ++ char :: other) := by
  obtain ⟨notA, notS⟩ := notLetter
  match front with
  | [] => simp [paramsIntro?, notA]
  | [first] => simp [paramsIntro?, notS]
  | first :: second :: front =>
    by_cases word : first = 'a' ∧ second = 's'
    · obtain ⟨rfl, rfl⟩ := word
      have short : (front.takeWhile isBlank).length ≤ front.length :=
        (List.takeWhile_sublist _).length_le
      simp only [List.cons_append, paramsIntro?, takeWhile_stop notBlank]
      rw [List.drop_append_of_le_length short, List.drop_append_of_le_length short]
      cases front.drop (front.takeWhile isBlank).length with
      | nil => by_cases bar : char = '|' <;> simp [bar]
      | cons next rest => by_cases bar : next = '|' <;> simp [bar]
    · have absent (text : List Char) : paramsIntro? (first :: second :: text) = none := by
        unfold paramsIntro?
        split
        · next equal => cases equal; exact absurd ⟨rfl, rfl⟩ word
        · rfl
      exact (absent _).trans (absent _).symm

/-- The words that introduce block params are found whatever follows them. -/
theorem paramsIntro?_eq_some {text : List Char} {size : Nat}
    (found : paramsIntro? text = some size) :
    ∃ letters rest, text = 'a' :: letters ++ rest ∧ size = ('a' :: letters).length ∧
      ∀ other, paramsIntro? ('a' :: letters ++ other) = some ('a' :: letters).length := by
  unfold paramsIntro? at found
  split at found
  · next rest =>
    obtain ⟨blanks, tail, rfl, blank, stops⟩ := exists_run isBlank rest
    simp only [takeWhile_run blank stops, List.drop_left] at found
    split at found
    · next rest =>
      split at found
      · cases found
      · next someBlank =>
        cases found
        refine ⟨'s' :: blanks ++ ['|'], rest, by simp, by simp, fun other => ?_⟩
        simp only [List.cons_append, List.append_assoc, List.nil_append, paramsIntro?]
        rw [takeWhile_run blank (halts_cons.mpr (by decide)), List.drop_left]
        simpa using someBlank
    · cases found
  · cases found

/-! ### Strings -/

theorem quotedString?_cons (quote : Char) {char : Char} (plain : char ≠ '\\')
    (rest : List Char) :
    quotedString? quote (char :: rest) =
      if char = quote then some ([], 1)
      else (quotedString? quote rest).map fun (value, size) => (char :: value, size + 1) := by
  rw [quotedString?]
  · rintro rfl
    exact absurd rfl plain
  · rintro _ _ rfl
    exact absurd rfl plain

/-- A character that begins no escape is no backslash. -/
theorem ne_backslash {char : Char} {rest : List Char} (notLast : char = '\\' → rest = [] → False)
    (notEscape : ∀ escaped more, char = '\\' → rest = escaped :: more → False) : char ≠ '\\' := by
  intro equal
  cases rest with
  | nil => exact notLast equal rfl
  | cons escaped more => exact notEscape escaped more equal rfl

/-- Where a string ends is settled by its characters and its quote. -/
theorem quotedString?_eq_some {quote : Char} {text value : List Char} {size : Nat}
    (found : quotedString? quote text = some (value, size)) :
    ∃ inside rest, text = inside ++ quote :: rest ∧ inside.length + 1 = size ∧
      ∀ other, quotedString? quote (inside ++ quote :: other) = some (value, size) := by
  induction text using quotedString?.induct quote generalizing value size with
  | case1 => cases found
  | case2 => cases found
  | case3 escaped rest inductionHypothesis =>
    rw [quotedString?] at found
    obtain ⟨⟨inner, count⟩, foundInner, equal⟩ := Option.map_eq_some_iff.mp found
    obtain ⟨inside, rest, rfl, length, again⟩ := inductionHypothesis foundInner
    cases equal
    refine ⟨'\\' :: escaped :: inside, rest, rfl, by simp [← length], fun other => ?_⟩
    rw [List.cons_append, List.cons_append, quotedString?, again other]
    rfl
  | case4 rest notLast notEscape =>
    have plain := ne_backslash notLast notEscape
    rw [quotedString?_cons quote plain, if_pos rfl] at found
    cases found
    refine ⟨[], rest, rfl, rfl, fun other => ?_⟩
    rw [List.nil_append, quotedString?_cons quote plain, if_pos rfl]
  | case5 char rest notLast notEscape differs inductionHypothesis =>
    have plain := ne_backslash notLast notEscape
    rw [quotedString?_cons quote plain, if_neg differs] at found
    obtain ⟨⟨inner, count⟩, foundInner, equal⟩ := Option.map_eq_some_iff.mp found
    obtain ⟨inside, rest, rfl, length, again⟩ := inductionHypothesis foundInner
    cases equal
    refine ⟨char :: inside, rest, rfl, by simp [← length], fun other => ?_⟩
    rw [List.cons_append, quotedString?_cons quote plain, if_neg differs, again other]
    rfl

/-- A string is read up to its closing quote and no further. -/
theorem stringLiteral_takes {quote : Char} {offset : Nat} {text : List Char} {value : Expression}
    {after : Cursor} (success : stringLiteral quote ⟨offset, quote :: text⟩ = .ok (value, after)) :
    ∃ inside rest, text = inside ++ quote :: rest ∧
      after = ⟨offset + byteSize (quote :: (inside ++ [quote])), rest⟩ ∧
      Takes (stringLiteral quote) offset (quote :: (inside ++ [quote])) value := by
  simp only [stringLiteral, List.drop_succ_cons, List.drop_zero] at success
  split at success
  · cases success
  · next chars size found =>
    obtain ⟨inside, rest, rfl, length, again⟩ := quotedString?_eq_some found
    have whole : (quote :: (inside ++ [quote])).length = size + 1 := by simp [← length]
    have upTo (rest : List Char) : quote :: (inside ++ quote :: rest) =
        quote :: (inside ++ [quote]) ++ rest := by
      simp
    rw [upTo, Cursor.skip_append_of_length offset whole] at success
    cases success
    refine ⟨inside, rest, rfl, rfl, fun other => ?_⟩
    rw [← upTo]
    simp only [stringLiteral, List.drop_succ_cons, List.drop_zero, again other]
    rw [upTo, Cursor.skip_append_of_length offset whole]
    rfl

/-! ### Numbers and names -/

theorem isDigit_iff {char : Char} :
    char.isDigit = true ↔ 48 ≤ char.toNat ∧ char.toNat ≤ 57 :=
  Bool.and_eq_true_iff.trans (and_congr (decide_eq_true_iff.trans UInt32.le_iff_toNat_le)
    (decide_eq_true_iff.trans UInt32.le_iff_toNat_le))

theorem isNameChar_of_isDigit {char : Char} (digit : char.isDigit = true) :
    isNameChar char = true := by
  have bounds := isDigit_iff.mp digit
  have digits : ∀ number : Fin 10, isNameChar (Char.ofNat (48 + number)) = true := by decide
  have named := digits ⟨char.toNat - 48, by omega⟩
  rwa [Nat.add_sub_cancel' bounds.1, Char.ofNat_toNat] at named

theorem halts_isDigit {rest : List Char} (halts : Halts isNameChar rest) :
    Halts Char.isDigit rest := by
  intro char tail equal
  have fails := halts char tail equal
  cases digit : char.isDigit with
  | false => rfl
  | true =>
    rw [isNameChar_of_isDigit digit] at fails
    cases fails

/-- What stands for the sign of a number in front of its digits. -/
def IsSign (sign digits : List Char) : Prop :=
  sign = ['-'] ∨ sign = [] ∧ digits.head? ≠ some '-'

theorem exists_sign (text : List Char) : ∃ sign digits, text = sign ++ digits ∧ IsSign sign digits := by
  cases text with
  | nil => exact ⟨[], [], rfl, .inr ⟨rfl, by simp⟩⟩
  | cons char rest =>
    by_cases minus : char = '-'
    · exact ⟨['-'], rest, by rw [minus]; rfl, .inl rfl⟩
    · exact ⟨[], char :: rest, rfl, .inr ⟨rfl, by simpa using minus⟩⟩

theorem number?_sign {sign digits : List Char} (isSign : IsSign sign digits) :
    number? (sign ++ digits) =
      if (digits.takeWhile Char.isDigit).isEmpty then none
      else
        match digits.dropWhile Char.isDigit with
        | '.' :: rest =>
          some (sign ++ digits.takeWhile Char.isDigit ++
            if (rest.takeWhile Char.isDigit).isEmpty then []
            else '.' :: rest.takeWhile Char.isDigit)
        | _ => some (sign ++ digits.takeWhile Char.isDigit) := by
  rcases isSign with rfl | ⟨rfl, plain⟩
  · rfl
  · rw [List.nil_append]
    unfold number?
    split
    · exact absurd rfl plain
    · rfl

theorem IsSign.append {sign whole : List Char} (nonempty : whole ≠ []) {rest : List Char}
    (isSign : IsSign sign (whole ++ rest)) (other : List Char) : IsSign sign (whole ++ other) := by
  obtain ⟨char, whole, rfl⟩ := List.exists_cons_of_ne_nil nonempty
  exact isSign

/-- A number that no name character follows is read as it is, whatever follows it. -/
theorem number?_again {digits rest other : List Char}
    (found : number? (digits ++ rest) = some digits) (halts : Halts isNameChar rest)
    (haltsOther : Halts isNameChar other) : number? (digits ++ other) = some digits := by
  obtain ⟨sign, unsigned, equal, isSign⟩ := exists_sign (digits ++ rest)
  obtain ⟨whole, tail, rfl, isWhole, stops⟩ := exists_run Char.isDigit unsigned
  rw [equal, number?_sign isSign, takeWhile_run isWhole stops, dropWhile_run isWhole stops] at found
  split at found
  · cases found
  next someDigits =>
  have nonempty : whole ≠ [] := by
    rintro rfl
    exact someDigits rfl
  split at found
  · next more =>
    obtain ⟨fraction, after, rfl, isFraction, stopsFraction⟩ := exists_run Char.isDigit more
    rw [takeWhile_run isFraction stopsFraction] at found
    split at found
    · -- a dot without digits after it would itself be a name character that follows
      have ends : rest = '.' :: (fraction ++ after) := by
        rw [← Option.some.inj found, List.append_nil, List.append_assoc] at equal
        exact List.append_cancel_left (List.append_cancel_left equal)
      exact absurd (halts '.' _ ends) (by decide)
    · next someFraction =>
      cases found
      have point : Halts Char.isDigit ('.' :: (fraction ++ other)) := halts_cons.mpr (by decide)
      simp only [List.append_assoc, List.cons_append]
      rw [number?_sign (isSign.append nonempty _), takeWhile_run isWhole point,
        dropWhile_run isWhole point, if_neg someDigits]
      simp only [takeWhile_run isFraction (halts_isDigit haltsOther), if_neg someFraction,
        List.append_assoc]
  · cases found
    rw [List.append_assoc, number?_sign (isSign.append nonempty _),
      takeWhile_run isWhole (halts_isDigit haltsOther),
      dropWhile_run isWhole (halts_isDigit haltsOther), if_neg someDigits]
    split
    · exact absurd (haltsOther '.' _ rfl) (by decide)
    · rfl

/-- A number stands at the front of the text and is made of name characters. -/
theorem number?_eq_some {text digits : List Char} (found : number? text = some digits) :
    ∃ rest, text = digits ++ rest ∧ digits ≠ [] ∧ ∀ char ∈ digits, isNameChar char = true := by
  obtain ⟨sign, unsigned, rfl, isSign⟩ := exists_sign text
  obtain ⟨whole, tail, rfl, isWhole, stops⟩ := exists_run Char.isDigit unsigned
  rw [number?_sign isSign, takeWhile_run isWhole stops, dropWhile_run isWhole stops] at found
  have signNamed : ∀ char ∈ sign, isNameChar char = true := by
    rcases isSign with rfl | ⟨rfl, -⟩
    · exact List.all_eq_true.mp rfl
    · exact fun _ member => nomatch member
  have wholeNamed : ∀ char ∈ sign ++ whole, isNameChar char = true := by
    intro char member
    rcases List.mem_append.mp member with inSign | inWhole
    · exact signNamed char inSign
    · exact isNameChar_of_isDigit (isWhole char inWhole)
  split at found
  · cases found
  next someDigits =>
  have nonempty : sign ++ whole ≠ [] := by
    intro equal
    exact someDigits (by rw [(List.append_eq_nil_iff.mp equal).2]; rfl)
  split at found
  · next more =>
    obtain ⟨fraction, after, rfl, isFraction, stopsFraction⟩ := exists_run Char.isDigit more
    rw [takeWhile_run isFraction stopsFraction] at found
    split at found
    · cases found
      exact ⟨'.' :: (fraction ++ after), by simp, by simpa using nonempty, by simpa using wholeNamed⟩
    · cases found
      refine ⟨after, by simp, by simp, fun char member => ?_⟩
      rcases List.mem_append.mp member with inWhole | inFraction
      · exact wholeNamed char inWhole
      · rcases List.mem_cons.mp inFraction with rfl | inFraction
        · decide
        · exact isNameChar_of_isDigit (isFraction char inFraction)
  · cases found
    exact ⟨tail, by simp, nonempty, wholeNamed⟩

/-- The word or number that a whole run of name characters is. -/
def runExpression (run rest : List Char) (span : Option Span) : Expression :=
  if number? (run ++ rest) = some run then .literal (.number (String.ofList run)) span
  else wordExpression run span

theorem atom_run (offset : Nat) {run rest : List Char} (nonempty : run ≠ [])
    (named : ∀ char ∈ run, isNameChar char = true) (halts : Halts isNameChar rest) :
    atom ⟨offset, run ++ rest⟩ =
      .ok (runExpression run rest (some ⟨offset, offset + byteSize run⟩),
        ⟨offset + byteSize run, rest⟩) := by
  have runEq : nameRun (run ++ rest) = run := takeWhile_run named halts
  have digits : (number? (run ++ rest)).filter (fun digits =>
      (nameRun ((run ++ rest).drop digits.length)).isEmpty) =
        if number? (run ++ rest) = some run then some run else none := by
    cases found : number? (run ++ rest) with
    | none => simp
    | some digits =>
      obtain ⟨tail, equal, -, digitsNamed⟩ := number?_eq_some found
      by_cases stops : (nameRun ((run ++ rest).drop digits.length)).isEmpty
      · -- a number that no name character follows is the whole run
        have tailHalts : Halts isNameChar tail := by
          rw [equal, List.drop_left] at stops
          have noRun := List.isEmpty_iff.mp stops
          intro char more first
          cases named : isNameChar char with
          | false => rfl
          | true => rw [first, nameRun, List.takeWhile_cons_of_pos named] at noRun; cases noRun
        have same : digits = run := by
          rw [← takeWhile_run digitsNamed tailHalts, ← equal, takeWhile_run named halts]
        rw [Option.filter_some, if_pos stops, same, if_pos rfl]
      · have differs : digits ≠ run := by
          rintro rfl
          rw [List.drop_left, nameRun, takeWhile_of_halts halts] at stops
          exact stops rfl
        rw [Option.filter_some, if_neg stops, if_neg (by simpa using differs)]
  obtain ⟨first, more, equal⟩ := List.exists_cons_of_ne_nil nonempty
  simp only [atom, digits, runEq, runExpression]
  by_cases isNumber : number? (run ++ rest) = some run
  · rw [if_pos isNumber, if_pos isNumber]
    simp only [Cursor.skip_append, Cursor.spanTo]
  · rw [if_neg isNumber, if_neg isNumber, equal, List.cons_append]
    simp only [← List.cons_append, Cursor.skip_append, Cursor.spanTo]

theorem runExpression_again {run rest other : List Char} (halts : Halts isNameChar rest)
    (haltsOther : Halts isNameChar other) (span : Option Span) :
    runExpression run rest span = runExpression run other span := by
  unfold runExpression
  by_cases isNumber : number? (run ++ rest) = some run
  · rw [if_pos isNumber, if_pos (number?_again isNumber halts haltsOther)]
  · rw [if_neg isNumber,
      if_neg fun again => isNumber (number?_again again haltsOther halts)]

/-- What is read as an atom is a run of name characters. -/
theorem atom_eq_ok {offset : Nat} {text : List Char} {value : Expression} {after : Cursor}
    (nonempty : text ≠ []) (success : atom ⟨offset, text⟩ = .ok (value, after)) :
    ∃ run rest, text = run ++ rest ∧ run ≠ [] ∧ (∀ char ∈ run, isNameChar char = true) ∧
      Halts isNameChar rest ∧ value = runExpression run rest (some ⟨offset, offset + byteSize run⟩) ∧
      after = ⟨offset + byteSize run, rest⟩ := by
  obtain ⟨run, rest, rfl, named, halts⟩ := exists_run isNameChar text
  by_cases isEmpty : run = []
  · subst isEmpty
    rw [List.nil_append] at success nonempty
    obtain ⟨char, tail, rfl⟩ := List.exists_cons_of_ne_nil nonempty
    have noNumber : number? (char :: tail) = none := by
      cases found : number? (char :: tail) with
      | none => rfl
      | some digits =>
        obtain ⟨more, equal, digitsSome, digitsNamed⟩ := number?_eq_some found
        obtain ⟨first, digits, rfl⟩ := List.exists_cons_of_ne_nil digitsSome
        have first := digitsNamed first List.mem_cons_self
        rw [← (List.cons.inj equal).1, halts char tail rfl] at first
        cases first
    simp only [atom, noNumber, Option.filter_none, nameRun, takeWhile_of_halts halts] at success
    cases success
  · rw [atom_run offset isEmpty named halts] at success
    cases success
    exact ⟨run, rest, rfl, isEmpty, named, halts, rfl, rfl⟩

theorem atom_takes {offset : Nat} {text : List Char} {value : Expression} {after : Cursor}
    (nonempty : text ≠ []) (success : atom ⟨offset, text⟩ = .ok (value, after)) :
    ∃ used rest, text = used ++ rest ∧ used ≠ [] ∧ after = ⟨offset + byteSize used, rest⟩ ∧
      Halts isNameChar rest ∧ ∀ other, Halts isNameChar other →
        atom ⟨offset, used ++ other⟩ = .ok (value, ⟨offset + byteSize used, other⟩) := by
  obtain ⟨run, rest, textEq, someRun, named, halts, rfl, afterEq⟩ := atom_eq_ok nonempty success
  refine ⟨run, rest, textEq, someRun, afterEq, halts, fun other haltsOther => ?_⟩
  rw [atom_run offset someRun named haltsOther, runExpression_again halts haltsOther]

end Reader

end TagMigration
