/-
A call is read up to its closer and no further. The reader of arguments does nothing but put one
argument in front of others, so all that it reads closes. Nested calls make the same of the reader of
expressions, by induction on the characters that are left.
-/
import TagMigration.Proofs.Reading.Arguments

namespace TagMigration.Reader

/-! ### Every call closes -/

section Arguments

variable {nested : Cursor → Except Fault (Expression × Cursor)} {closer : Closer} {bound : Nat}
  {sawNamed : Bool} {offset : Nat} {inside : List Char} {given : Arguments}

/-- The expressions that `nested` reads, `again` reads from the same text whatever follows, unless
a word is continued; `bound` is the greatest number of characters it can read. -/
def Rereads (nested again : Cursor → Except Fault (Expression × Cursor)) (bound : Nat) : Prop :=
  ∀ offset text value after, nested ⟨offset, text⟩ = .ok (value, after) →
    ∃ used rest, text = used ++ rest ∧ used ≠ [] ∧ after = ⟨offset + byteSize used, rest⟩ ∧
      value.span = some ⟨offset, offset + byteSize used⟩ ∧
      (used.length ≤ bound → ∀ other, (Halts isNameChar rest → Halts isNameChar other) →
        again ⟨offset, used ++ other⟩ = .ok (value, ⟨offset + byteSize used, other⟩))

/-- What follows an argument inside a call ends a word or not, whatever follows the call. -/
theorem halts_closer (inside : List Char) {rest other : List Char}
    (halts : Halts isNameChar (inside ++ (closer.chars ++ rest))) :
    Halts isNameChar (inside ++ (closer.chars ++ other)) := by
  obtain ⟨char, tail, chars, -, -⟩ := closer.exists_stop
  have nonempty : inside ++ closer.chars ≠ [] := by simp [chars]
  rw [← List.append_assoc, halts_append nonempty] at halts ⊢
  exact halts

theorem arguments_closes {again : Cursor → Except Fault (Expression × Cursor)}
    (rereads : Rereads nested again bound) (begin : Nat) :
    ∀ (size : Nat) (sawNamed : Bool) (offset : Nat) (text : List Char) (given : Arguments)
      (after : Cursor),
      arguments nested closer begin size sawNamed ⟨offset, text⟩ = .ok (given, after) →
      ∃ inside rest, text = inside ++ (closer.chars ++ rest) ∧
        after = ⟨offset + byteSize inside + byteSize closer.chars, rest⟩ ∧
        Closes again closer bound sawNamed offset inside given
  | 0, _, _, _, _, _, success => by cases success
  | size + 1, sawNamed, offset, text, given, after, success => by
    obtain ⟨blanks, text, rfl, blank, halts⟩ := exists_run isBlank text
    rw [arguments_blank begin size blank halts] at success
    by_cases nonempty : text = []
    · subst nonempty
      cases success
    rw [arguments_succ begin size nonempty halts] at success
    -- what is left is to close the call behind the blanks
    suffices closes : ∃ inside rest, text = inside ++ (closer.chars ++ rest) ∧
        after = ⟨offset + byteSize blanks + byteSize inside + byteSize closer.chars, rest⟩ ∧
        Closes again closer bound sawNamed (offset + byteSize blanks) inside given by
      obtain ⟨inside, rest, rfl, rfl, closes⟩ := closes
      refine ⟨blanks ++ inside, rest, by simp, by simp [Nat.add_assoc], closes.blank blank ?_⟩
      by_cases empty : inside = []
      · rw [empty]
        exact halts_nil
      · exact (halts_append empty).mp halts
    generalize offset + byteSize blanks = offset at success ⊢
    cases found : closer? closer ⟨offset, text⟩ with
    | some closed =>
      obtain ⟨trim, last⟩ := closed
      rw [found] at success
      cases success
      obtain ⟨rest, rfl, rfl, takes⟩ := closer?_eq_some found
      exact ⟨tilde trim, rest, rfl, by simp [Nat.add_assoc], .finish trim takes⟩
    | none =>
      rw [found] at success
      cases introduced : paramsIntro? text with
      | some width =>
        rw [introduced] at success
        obtain ⟨⟨names, afterNames⟩, readNames, success⟩ := bind_eq_ok success
        obtain ⟨⟨more, last⟩, readMore, success⟩ := bind_eq_ok success
        cases success
        obtain ⟨letters, tail, rfl, rfl, intro⟩ := paramsIntro?_eq_some introduced
        rw [Cursor.skip_append] at readNames
        obtain ⟨words, tail, rfl, rfl, takes⟩ := blockParams_takesOnly _ _ _ _ readNames
        obtain ⟨inside, rest, rfl, rfl, closes⟩ :=
          arguments_closes rereads begin size _ _ _ _ _ readMore
        exact ⟨_, rest, by simp, by simp [Nat.add_assoc], closes.params intro takes⟩
      | none =>
        rw [introduced] at success
        cases keyed : namedKey? text with
        | some found =>
          obtain ⟨key, width⟩ := found
          rw [keyed] at success
          obtain ⟨⟨value, afterValue⟩, readValue, success⟩ := bind_eq_ok success
          obtain ⟨⟨more, last⟩, readMore, success⟩ := bind_eq_ok success
          cases success
          obtain ⟨between, tail, rfl, someKey, isKey, isBetween, rfl⟩ := namedKey?_eq_some keyed
          obtain ⟨gap, tail, rfl, isGap, stopsGap⟩ := exists_run isBlank tail
          have upTo : key ++ (between ++ '=' :: (gap ++ tail)) =
              key ++ (between ++ ['=']) ++ (gap ++ tail) := by
            simp
          have place : offset + byteSize (key ++ (between ++ ['='])) + byteSize gap =
              offset + byteSize (key ++ (between ++ '=' :: gap)) := by
            simp only [byteSize_append, byteSize_cons, byteSize_nil]
            omega
          rw [upTo, Cursor.skip_append, Cursor.skipBlanks_append _ isGap stopsGap, place] at readValue
          obtain ⟨used, tail, rfl, someUsed, rfl, stands, reread⟩ := rereads _ _ _ _ readValue
          obtain ⟨inside, rest, rfl, rfl, closes⟩ :=
            arguments_closes rereads begin size _ _ _ _ _ readMore
          refine ⟨key ++ (between ++ '=' :: gap) ++ (used ++ inside), rest, by simp,
            by simp [Nat.add_assoc], ?_⟩
          exact closes.named someKey isKey isBetween isGap someUsed
            ((halts_append someUsed).mp stopsGap) introduced
            (fun short other => reread short _ (halts_closer inside)) stands
        | none =>
          rw [keyed] at success
          cases sawNamed with
          | true => cases success
          | false =>
            obtain ⟨⟨value, afterValue⟩, readValue, success⟩ := bind_eq_ok success
            obtain ⟨⟨more, last⟩, readMore, success⟩ := bind_eq_ok success
            cases success
            obtain ⟨used, tail, rfl, someUsed, rfl, stands, reread⟩ := rereads _ _ _ _ readValue
            obtain ⟨inside, rest, rfl, rfl, closes⟩ :=
              arguments_closes rereads begin size _ _ _ _ _ readMore
            refine ⟨used ++ inside, rest, by simp, by simp [Nat.add_assoc], ?_⟩
            exact closes.positional someUsed ((halts_append someUsed).mp halts) found introduced
              keyed (fun short other => reread short _ (halts_closer inside))

end Arguments

/-- Read with `nested` for nested expressions of at most `bound` characters, the text `inside` in
front of the closer is the call `parts`, whatever follows; the values of its named arguments stand
in it. -/
structure IsCall (nested : Cursor → Except Fault (Expression × Cursor)) (closer : Closer)
    (bound : Nat) (offset : Nat) (inside : List Char) (parts : CallParts) : Prop where
  nonempty : inside ≠ []
  values : ∀ argument ∈ parts.call.named, argument.value.Within offset inside
  reads : inside.length ≤ bound → ∀ begin rest,
    callParts nested closer begin ⟨offset, inside ++ (closer.chars ++ rest)⟩ =
      .ok (parts, ⟨offset + byteSize inside + byteSize closer.chars, rest⟩)

section Calls

variable {nested again : Cursor → Except Fault (Expression × Cursor)} {closer : Closer}
  {bound : Nat} {offset : Nat}

theorem Closes.callee {gap used inside : List Char} {callee : Expression} {given : Arguments}
    (isGap : ∀ char ∈ gap, isBlank char = true) (nonempty : used ≠ [])
    (halts : Halts isBlank used)
    (reads : used.length ≤ bound → ∀ rest,
      nested ⟨offset + byteSize gap, used ++ (inside ++ (closer.chars ++ rest))⟩ =
        .ok (callee, ⟨offset + byteSize gap + byteSize used, inside ++ (closer.chars ++ rest)⟩))
    (closes : Closes nested closer bound false (offset + byteSize gap + byteSize used) inside given) :
    IsCall nested closer bound offset (gap ++ (used ++ inside))
      ⟨⟨callee, given.positional, given.named⟩, given.params, given.trimAfter⟩ := by
  refine ⟨by simp [nonempty], fun argument member => ?_, fun short begin rest => ?_⟩
  · exact ((closes.values argument member).append_left used).append_left gap
  · simp only [List.length_append] at short
    obtain ⟨char, tail, chars, -, -⟩ := closer.exists_stop
    have upTo : gap ++ (used ++ inside) ++ (closer.chars ++ rest) =
        gap ++ (used ++ (inside ++ (closer.chars ++ rest))) := by
      simp
    rw [callParts, upTo, Cursor.skipBlanks_append offset isGap ((halts_append nonempty).mpr halts),
      reads (by omega) rest]
    show (arguments nested closer begin _ false _ >>= _) = _
    rw [closes.reads _ begin rest (by simp [chars]) (by omega)]
    simp only [byteSize_append, ← Nat.add_assoc]
    rfl

theorem callParts_isCall (rereads : Rereads nested again bound) {begin : Nat} {text : List Char}
    {parts : CallParts} {after : Cursor}
    (success : callParts nested closer begin ⟨offset, text⟩ = .ok (parts, after)) :
    ∃ inside rest, text = inside ++ (closer.chars ++ rest) ∧
      after = ⟨offset + byteSize inside + byteSize closer.chars, rest⟩ ∧
      IsCall again closer bound offset inside parts := by
  obtain ⟨⟨callee, afterCallee⟩, readCallee, success⟩ := bind_eq_ok success
  obtain ⟨⟨given, last⟩, readGiven, success⟩ := bind_eq_ok success
  cases success
  obtain ⟨gap, text, rfl, isGap, stops⟩ := exists_run isBlank text
  rw [Cursor.skipBlanks_append offset isGap stops] at readCallee
  obtain ⟨used, tail, rfl, someUsed, rfl, -, reread⟩ := rereads _ _ _ _ readCallee
  obtain ⟨inside, rest, rfl, rfl, closes⟩ := arguments_closes rereads begin _ _ _ _ _ _ readGiven
  refine ⟨gap ++ (used ++ inside), rest, by simp, by simp [Nat.add_assoc], ?_⟩
  exact closes.callee isGap someUsed ((halts_append someUsed).mp stops)
    fun short other => reread short _ (halts_closer inside)

end Calls

/-! ### Every expression is read from its own text -/

theorem wordExpression_span (name : List Char) (span : Option Span) :
    (wordExpression name span).span = span := by
  simp only [wordExpression]
  split
  · rfl
  · split
    · rfl
    · split
      · rfl
      · split <;> rfl

theorem atom_span {offset : Nat} {text : List Char} {value : Expression} {after : Cursor}
    (success : atom ⟨offset, text⟩ = .ok (value, after)) :
    value.span = some ⟨offset, after.offset⟩ := by
  simp only [atom] at success
  split at success
  · cases success
    rfl
  · split at success
    · cases success
    · cases success
      exact wordExpression_span _ _

theorem stringLiteral_span {quote : Char} {offset : Nat} {text : List Char} {value : Expression}
    {after : Cursor} (success : stringLiteral quote ⟨offset, text⟩ = .ok (value, after)) :
    value.span = some ⟨offset, after.offset⟩ := by
  simp only [stringLiteral] at success
  split at success
  · cases success
  · cases success
    rfl

/-- What is not in parentheses is a string or a word. -/
theorem expressionWithin_char (size offset : Nat) {char : Char} (unnested : char ≠ '(')
    (rest : List Char) :
    expressionWithin (size + 1) ⟨offset, char :: rest⟩ =
      if char = '"' ∨ char = '\'' then stringLiteral char ⟨offset, char :: rest⟩
      else atom ⟨offset, char :: rest⟩ := by
  rw [expressionWithin]
  split
  · next equal => cases equal
  · next equal =>
    cases equal
    exact absurd rfl unnested
  · next equal =>
    cases equal
    rfl

/-- How an expression is read at the front of a text: as a call in parentheses, as a string, or as the
word or number that a run of name characters is. -/
inductive ReadsAs (offset : Nat) : Nat → List Char → Expression → Cursor → Prop where
  | call {size : Nat} {inside : List Char} {parts : CallParts} {after : Cursor}
    (reads : callParts (expressionWithin size) .parenthesis offset
      ⟨offset + byteSize ['('], inside⟩ = .ok (parts, after))
    (unbound : parts.params.isEmpty = true) :
    ReadsAs offset (size + 1) ('(' :: inside) (.call parts.call (some ⟨offset, after.offset⟩)) after
  | string {size : Nat} {quote : Char} {inside : List Char} {value : Expression} {after : Cursor}
    (isQuote : quote = '"' ∨ quote = '\'')
    (reads : stringLiteral quote ⟨offset, quote :: inside⟩ = .ok (value, after)) :
    ReadsAs offset (size + 1) (quote :: inside) value after
  | run {size : Nat} {run rest : List Char} (nonempty : run ≠ [])
    (named : ∀ char ∈ run, isNameChar char = true) (halts : Halts isNameChar rest) :
    ReadsAs offset (size + 1) (run ++ rest)
      (runExpression run rest (some ⟨offset, offset + byteSize run⟩)) ⟨offset + byteSize run, rest⟩

theorem expressionWithin_readsAs {size offset : Nat} {text : List Char} {value : Expression}
    {after : Cursor} (success : expressionWithin size ⟨offset, text⟩ = .ok (value, after)) :
    ReadsAs offset size text value after := by
  cases size with
  | zero => cases success
  | succ size =>
    cases text with
    | nil => cases success
    | cons char text =>
      by_cases nests : char = '('
      · subst nests
        obtain ⟨⟨parts, last⟩, readParts, success⟩ := bind_eq_ok success
        have skipped : (⟨offset, '(' :: text⟩ : Cursor).skip 1 = ⟨offset + byteSize ['('], text⟩ :=
          Cursor.skip_append offset ['('] text
        rw [skipped] at readParts
        simp only at success
        split at success
        · next unbound =>
          cases success
          exact .call readParts unbound
        · cases success
      · rw [expressionWithin_char size offset nests] at success
        split at success
        · next isQuote => exact .string isQuote success
        · obtain ⟨run, rest, equal, nonempty, named, halts, rfl, rfl⟩ :=
            atom_eq_ok (List.cons_ne_nil _ _) success
          rw [equal]
          exact .run nonempty named halts

theorem eq_of_name?_runExpression {run rest : List Char} {span : Option Span} {name : String}
    (isName : (runExpression run rest span).name? = some name) : name = String.ofList run := by
  simp only [runExpression, wordExpression] at isName
  repeat' split at isName
  all_goals cases isName
  rfl

theorem name?_stringLiteral {quote : Char} {cursor after : Cursor} {value : Expression}
    (success : stringLiteral quote cursor = .ok (value, after)) : value.name? = none := by
  rw [stringLiteral] at success
  split at success
  · cases success
  · cases success
    rfl

/-- A path is read from its name, which is a run of name characters. -/
theorem expressionWithin_name {size offset : Nat} {text : List Char} {value : Expression}
    {after : Cursor} {name : String}
    (success : expressionWithin size ⟨offset, text⟩ = .ok (value, after))
    (isName : value.name? = some name) :
    ∃ rest, text = name.toList ++ rest ∧ name.toList ≠ [] ∧
      (∀ char ∈ name.toList, isNameChar char = true) ∧ Halts isNameChar rest := by
  cases expressionWithin_readsAs success with
  | call => cases isName
  | string isQuote reads =>
    rw [name?_stringLiteral reads] at isName
    cases isName
  | run nonempty named halts =>
    rw [eq_of_name?_runExpression isName, String.toList_ofList]
    exact ⟨_, rfl, nonempty, named, halts⟩

/-- A call in parentheses is an expression, whatever follows. -/
theorem IsCall.parenthesised {bound offset : Nat} {inside : List Char} {parts : CallParts}
    (isCall : IsCall (expressionWithin bound) .parenthesis bound (offset + byteSize ['(']) inside
      parts) (unbound : parts.params.isEmpty = true) (short : inside.length ≤ bound)
    (rest : List Char) :
    expressionWithin (bound + 1) ⟨offset, '(' :: inside ++ [')'] ++ rest⟩ =
      .ok (.call parts.call (some ⟨offset, offset + byteSize ('(' :: inside ++ [')'])⟩),
        ⟨offset + byteSize ('(' :: inside ++ [')']), rest⟩) := by
  have place : offset + byteSize ['('] + byteSize inside + byteSize [')'] =
      offset + byteSize ('(' :: inside ++ [')']) := by
    simp only [byteSize_append, byteSize_cons, byteSize_nil]
    omega
  have skipped : (⟨offset, '(' :: inside ++ [')'] ++ rest⟩ : Cursor).skip 1 =
      ⟨offset + byteSize ['('], inside ++ ([')'] ++ rest)⟩ := by
    rw [List.append_assoc]
    exact Cursor.skip_append offset ['('] (inside ++ ([')'] ++ rest))
  have reads : callParts (expressionWithin bound) .parenthesis offset
      ⟨offset + byteSize ['('], inside ++ ([')'] ++ rest)⟩ =
        .ok (parts, ⟨offset + byteSize ['('] + byteSize inside + byteSize [')'], rest⟩) :=
    isCall.reads short offset rest
  rw [expressionWithin]
  simp only [List.cons_append]
  rw [show (⟨offset, '(' :: (inside ++ [')'] ++ rest)⟩ : Cursor).skip 1 = _ from skipped, reads,
    place]
  exact if_pos unbound

theorem expressionWithin_rereads :
    ∀ size bound : Nat, Rereads (expressionWithin size) (expressionWithin bound) bound := by
  intro size
  induction size with
  | zero =>
    intro bound offset text value after success
    cases success
  | succ size inductionHypothesis =>
    intro bound offset text value after success
    cases text with
    | nil => cases success
    | cons char text =>
      by_cases nests : char = '('
      · subst nests
        obtain ⟨⟨parts, last⟩, readParts, success⟩ := bind_eq_ok success
        simp only at success
        split at success
        · next unbound =>
          cases success
          have skipped : (⟨offset, '(' :: text⟩ : Cursor).skip 1 = ⟨offset + byteSize ['('], text⟩ :=
            Cursor.skip_append offset ['('] text
          rw [skipped] at readParts
          obtain ⟨inside, rest, rfl, rfl, isCall⟩ :=
            callParts_isCall (inductionHypothesis (bound - 1)) readParts
          have place : offset + byteSize ['('] + byteSize inside + byteSize Closer.parenthesis.chars =
              offset + byteSize ('(' :: inside ++ [')']) := by
            simp only [byteSize_append, byteSize_cons, byteSize_nil, Closer.chars]
            omega
          refine ⟨'(' :: inside ++ [')'], rest, by simp [Closer.chars], by simp, by rw [place], ?_,
            fun short other _ => ?_⟩
          · rw [place]
            rfl
          · simp only [List.length_append, List.length_cons, List.length_nil] at short
            obtain ⟨bound, rfl⟩ :=
              Nat.exists_eq_add_one_of_ne_zero (Nat.ne_of_gt (show 0 < bound by omega))
            rw [Nat.add_sub_cancel] at isCall
            rw [isCall.parenthesised unbound (by omega) other, place]
            rfl
        · cases success
      rw [expressionWithin_char size offset nests] at success
      split at success
      · next quoted =>
        obtain ⟨inside, rest, rfl, rfl, takes⟩ := stringLiteral_takes success
        refine ⟨char :: (inside ++ [char]), rest, by simp, List.cons_ne_nil _ _, rfl,
          stringLiteral_span success, fun short other _ => ?_⟩
        obtain ⟨bound, rfl⟩ :=
          Nat.exists_eq_add_one_of_ne_zero (Nat.ne_of_gt (show 0 < bound by simp at short; omega))
        rw [List.cons_append, expressionWithin_char bound offset nests, if_pos quoted]
        exact takes other
      · next bare =>
        obtain ⟨used, rest, equal, nonempty, rfl, halts, reads⟩ :=
          atom_takes (List.cons_ne_nil _ _) success
        refine ⟨used, rest, equal, nonempty, rfl, atom_span success, fun short other follows => ?_⟩
        obtain ⟨first, letters, rfl⟩ := List.exists_cons_of_ne_nil nonempty
        obtain ⟨rfl, -⟩ := List.cons.inj equal
        obtain ⟨bound, rfl⟩ :=
          Nat.exists_eq_add_one_of_ne_zero (Nat.ne_of_gt (show 0 < bound by simp at short; omega))
        rw [List.cons_append, expressionWithin_char bound offset nests, if_neg bare]
        exact reads other (follows halts)

theorem expression_rereads (bound : Nat) : Rereads expression expression bound := by
  intro offset text value after success
  obtain ⟨used, rest, equal, nonempty, afterEq, stands, -⟩ :=
    expressionWithin_rereads text.length 0 offset text value after success
  refine ⟨used, rest, equal, nonempty, afterEq, stands, fun _ other follows => ?_⟩
  obtain ⟨again, tail, equalAgain, -, afterAgain, -, reads⟩ :=
    expressionWithin_rereads text.length (used ++ other).length offset text value after success
  obtain rfl : rest = tail := congrArg Cursor.rest (afterEq.symm.trans afterAgain)
  obtain rfl : used = again := List.append_cancel_right (equal.symm.trans equalAgain)
  exact reads (by rw [List.length_append]; omega) other follows

/-- The call of a tag is read up to its closer and no further. -/
theorem tagCall_isCall {closer : Closer} {begin offset : Nat} {text : List Char}
    {parts : CallParts} {after : Cursor}
    (success : tagCall closer begin ⟨offset, text⟩ = .ok (parts, after)) :
    ∃ inside rest, text = inside ++ (closer.chars ++ rest) ∧
      after = ⟨offset + byteSize inside + byteSize closer.chars, rest⟩ ∧
      IsCall expression closer inside.length offset inside parts := by
  obtain ⟨inside, rest, equal, afterEq, -⟩ := callParts_isCall (expression_rereads 0) success
  refine ⟨inside, rest, equal, afterEq, ?_⟩
  obtain ⟨again, tail, equalAgain, afterAgain, isCall⟩ :=
    callParts_isCall (expression_rereads inside.length) success
  obtain rfl : rest = tail := congrArg Cursor.rest (afterEq.symm.trans afterAgain)
  obtain rfl : inside = again := List.append_cancel_right (equal.symm.trans equalAgain)
  exact isCall

/-- If the callee of a tag is a path, its name stands behind blanks. -/
theorem tagCall_name {closer : Closer} {begin offset : Nat} {text : List Char} {parts : CallParts}
    {after : Cursor} {name : String}
    (success : tagCall closer begin ⟨offset, text⟩ = .ok (parts, after))
    (isName : parts.call.callee.name? = some name) :
    ∃ gap rest, text = gap ++ (name.toList ++ rest) ∧ (∀ char ∈ gap, isBlank char = true) ∧
      name.toList ≠ [] ∧ (∀ char ∈ name.toList, isNameChar char = true) ∧
      Halts isNameChar rest := by
  obtain ⟨callee, between, given, readCallee, -, rfl⟩ := callParts_eq_ok success
  obtain ⟨gap, tail, rfl, blank, halts⟩ := exists_run isBlank text
  rw [Cursor.skipBlanks_append _ blank halts] at readCallee
  obtain ⟨rest, rfl, someName, named, ends⟩ := expressionWithin_name readCallee isName
  exact ⟨gap, rest, rfl, blank, someName, named, ends⟩

theorem IsCall.tag {closer : Closer} {offset : Nat} {inside : List Char} {parts : CallParts}
    (isCall : IsCall expression closer inside.length offset inside parts) (begin : Nat)
    (rest : List Char) :
    tagCall closer begin ⟨offset, inside ++ (closer.chars ++ rest)⟩ =
      .ok (parts, ⟨offset + byteSize inside + byteSize closer.chars, rest⟩) :=
  isCall.reads (Nat.le_refl _) begin rest

end TagMigration.Reader
