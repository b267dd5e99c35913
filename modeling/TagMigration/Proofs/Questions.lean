/-
What a probe asks. A conditional spells out the name of an invocation and the identity of its
template as two strings in double quotes. A quote in a string is written with a backslash before it,
but a backslash stands as it is, and a name may end in one. So the text of a conditional is read as
the same question, about the same name, exactly if the backslashes at the end of the name come in
pairs: the last of an odd number of them takes away the quote that ends the name.
-/
import TagMigration.Proofs.Replacement

namespace TagMigration

/-! ### Backslashes at the end -/

/-- The number of backslashes that a text ends with. -/
def backslashesAtEnd (text : List Char) : Nat :=
  (text.reverse.takeWhile (· == '\\')).length

/-- The backslashes at the end of a name come in pairs. -/
def Name.EndsPaired (name : String) : Prop :=
  backslashesAtEnd name.toList % 2 = 0

instance (name : String) : Decidable (Name.EndsPaired name) :=
  inferInstanceAs (Decidable (backslashesAtEnd name.toList % 2 = 0))

theorem backslashesAtEnd_cons {char : Char} (other : char ≠ '\\') (text : List Char) :
    backslashesAtEnd (char :: text) = backslashesAtEnd text := by
  have stops : [char].takeWhile (· == '\\') = [] := by simp [other]
  rw [backslashesAtEnd, List.reverse_cons, List.takeWhile_append, stops, List.append_nil]
  split
  · next whole => rw [backslashesAtEnd, whole]
  · rfl

theorem backslashesAtEnd_escape (char : Char) (text : List Char) :
    backslashesAtEnd ('\\' :: char :: text) % 2 = backslashesAtEnd text % 2 := by
  rw [backslashesAtEnd, List.reverse_cons, List.reverse_cons, List.append_assoc,
    List.singleton_append, List.takeWhile_append]
  split
  · next whole =>
    by_cases same : char = '\\'
    · subst same
      have pair : ['\\', '\\'].takeWhile (· == '\\') = ['\\', '\\'] := rfl
      rw [pair, List.length_append, backslashesAtEnd, whole]
      simp
    · have stops : [char, '\\'].takeWhile (· == '\\') = [] := by simp [same]
      rw [stops, List.append_nil, backslashesAtEnd, whole]
  · rfl

namespace Reader

/-- A text without quotes is read up to the quote behind it, if the backslashes at its end come in
pairs. -/
theorem quotedString?_paired {text : List Char} (plain : '"' ∉ text)
    (paired : backslashesAtEnd text % 2 = 0) (rest : List Char) :
    quotedString? '"' (text ++ '"' :: rest) = some (text, text.length + 1) := by
  induction text using quotedString?.induct '"' with
  | case1 => rfl
  | case2 => cases paired
  | case3 escaped text inductionHypothesis =>
    simp only [List.mem_cons, not_or] at plain
    rw [backslashesAtEnd_escape] at paired
    rw [List.cons_append, List.cons_append, quotedString?, inductionHypothesis plain.2.2 paired]
    exact congrArg some (congrArg (·, _) (if_neg (Ne.symm plain.2.1)))
  | case4 text => exact absurd List.mem_cons_self plain
  | case5 char text notLast notEscape differs inductionHypothesis =>
    have notBackslash := ne_backslash notLast notEscape
    rw [backslashesAtEnd_cons notBackslash] at paired
    rw [List.cons_append, quotedString?_cons '"' notBackslash, if_neg differs,
      inductionHypothesis (fun member => plain (List.mem_cons_of_mem _ member)) paired]
    rfl

/-- Else the quote behind it is read as a character of the string. -/
theorem mem_of_quotedString?_unpaired {text : List Char} (plain : '"' ∉ text)
    (unpaired : backslashesAtEnd text % 2 ≠ 0) {rest value : List Char} {size : Nat}
    (found : quotedString? '"' (text ++ '"' :: rest) = some (value, size)) : '"' ∈ value := by
  induction text using quotedString?.induct '"' generalizing value size with
  | case1 => exact absurd rfl unpaired
  | case2 =>
    rw [List.cons_append, List.nil_append, quotedString?] at found
    obtain ⟨⟨inner, count⟩, -, equal⟩ := Option.map_eq_some_iff.mp found
    cases equal
    exact List.mem_cons_self
  | case3 escaped text inductionHypothesis =>
    simp only [List.mem_cons, not_or] at plain
    rw [backslashesAtEnd_escape] at unpaired
    rw [List.cons_append, List.cons_append, quotedString?] at found
    obtain ⟨⟨inner, count⟩, foundInner, equal⟩ := Option.map_eq_some_iff.mp found
    have member := inductionHypothesis plain.2.2 unpaired foundInner
    simp only [if_neg (Ne.symm plain.2.1)] at equal
    cases equal
    exact List.mem_cons_of_mem _ (List.mem_cons_of_mem _ member)
  | case4 text => exact absurd List.mem_cons_self plain
  | case5 char text notLast notEscape differs inductionHypothesis =>
    have notBackslash := ne_backslash notLast notEscape
    rw [backslashesAtEnd_cons notBackslash] at unpaired
    rw [List.cons_append, quotedString?_cons '"' notBackslash, if_neg differs] at found
    obtain ⟨⟨inner, count⟩, foundInner, equal⟩ := Option.map_eq_some_iff.mp found
    have member := inductionHypothesis (fun member => plain (List.mem_cons_of_mem _ member))
      unpaired foundInner
    cases equal
    exact List.mem_cons_of_mem _ member

theorem escapeQuotes_plain {text : List Char} (plain : '"' ∉ text) : escapeQuotes text = text := by
  induction text with
  | nil => rfl
  | cons char text inductionHypothesis =>
    rw [List.mem_cons, not_or] at plain
    rw [escapeQuotes, if_neg (Ne.symm plain.1), inductionHypothesis plain.2]

/-- A string without double quotes is written between double quotes as it is. -/
theorem print_string {value : String} (plain : '"' ∉ value.toList) :
    (Literal.string value).print = '"' :: value.toList ++ ['"'] := by
  have noQuote : ¬(value.toList.contains '"' && !value.toList.contains '\'') = true := by
    simp [plain]
  have text : (Literal.string value).print = '"' :: escapeQuotes value.toList ++ ['"'] :=
    if_neg noQuote
  rw [text, escapeQuotes_plain plain]

/-- A string without double quotes is read back if the backslashes at its end come in pairs. -/
theorem readsBack_paired {value : String} (plain : '"' ∉ value.toList)
    (paired : Name.EndsPaired value) :
    ReadsBack (Literal.string value).print (.literal (.string value) none) := by
  have readsBack := readsBack_quoted (.inl rfl) (quotedString?_paired plain paired)
  rwa [String.ofList_toList, ← print_string plain] at readsBack

/-! ### The first argument of a call -/

/-- The first argument of a call is what the reader of nested expressions reads behind the callee, if
it begins with a parenthesis or a quote. -/
theorem callParts_first {nested : Cursor → Except Fault (Expression × Cursor)} {closer : Closer}
    {bound begin offset : Nat} {word rest : List Char} {callee : Expression} {char : Char}
    (nests : Nests nested bound) (calls : ReadsBack word callee) (short : word.length ≤ bound)
    (starts : char = '(' ∨ char = '"') {parts : CallParts} {after : Cursor}
    (success : callParts nested closer begin ⟨offset, word ++ ' ' :: char :: rest⟩ =
      .ok (parts, after)) :
    ∃ argument last more, parts.call.positional = argument :: more ∧
      nested ⟨offset + byteSize word + byteSize [' '], char :: rest⟩ = .ok (argument, last) := by
  obtain ⟨first, letters, equal, notBlank, -⟩ := calls.first
  obtain ⟨read, -, -, reads⟩ := calls.reads offset
  have halts : Halts isBlank (word ++ ' ' :: char :: rest) := by
    rw [equal]
    exact halts_cons.mpr notBlank
  have haltsChar : Halts isBlank (char :: rest) := by
    rcases starts with rfl | rfl <;> exact halts_cons.mpr (by decide)
  have readCallee := nests offset word (' ' :: char :: rest) _ short fun size enough =>
    reads size _ enough (halts_cons.mpr (by decide))
  obtain ⟨value, between, given, readValue, readGiven, rfl⟩ := callParts_eq_ok success
  rw [Cursor.skipBlanks_of_halts offset halts, readCallee] at readValue
  cases readValue
  have space : (⟨offset + byteSize word, ' ' :: char :: rest⟩ : Cursor).skipBlanks =
      ⟨offset + byteSize word + byteSize [' '], char :: rest⟩ :=
    @Cursor.skipBlanks_append _ [' '] _ (List.all_eq_true.mp rfl) haltsChar
  cases readGiven with
  | closed found =>
    have unclosed : closer? closer ⟨offset + byteSize word + byteSize [' '], char :: rest⟩ = none := by
      rcases starts with rfl | rfl <;> cases closer <;> rfl
    rw [space, unclosed] at found
    cases found
  | params introduced =>
    rw [space] at introduced
    rcases starts with rfl | rfl <;> cases introduced
  | named keyed =>
    rw [space] at keyed
    rcases starts with rfl | rfl <;> cases keyed
  | positional reads more =>
    rw [space] at reads
    exact ⟨_, _, _, rfl, reads⟩

/-- What stands in parentheses is read as a call. -/
theorem callParts_of_call {size offset : Nat} {text : List Char} {value : Expression}
    {after : Cursor} (success : expressionWithin (size + 1) ⟨offset, '(' :: text⟩ = .ok (value, after)) :
    ∃ parts, callParts (expressionWithin size) .parenthesis offset ⟨offset + byteSize ['('], text⟩ =
      .ok (parts, after) ∧ value = .call parts.call (some ⟨offset, after.offset⟩) := by
  rw [expressionWithin] at success
  obtain ⟨⟨parts, last⟩, readParts, success⟩ := bind_eq_ok success
  simp only at success
  split at success
  · cases success
    exact ⟨parts, readParts, rfl⟩
  · cases success

/-- What stands between double quotes is read as a string. -/
theorem quotedString?_of_expression {size : Nat} {offset : Nat} {text : List Char}
    {value : Expression} {after : Cursor}
    (success : expressionWithin size ⟨offset, '"' :: text⟩ = .ok (value, after)) :
    ∃ chars width span, quotedString? '"' text = some (chars, width) ∧
      value = .literal (.string (String.ofList chars)) span := by
  cases size with
  | zero => cases success
  | succ size =>
    rw [expressionWithin_char size offset (by decide), if_pos (.inl rfl), stringLiteral] at success
    split at success
    · cases success
    · next chars width found =>
      cases success
      exact ⟨chars, width, _, found, rfl⟩

/-! ### Names of invocations -/

/-- The name of an invocation that was read is a run of name characters. -/
theorem isNameChar_of_spelling {next : Option Char} {offset : Nat} {text : List Char}
    {statement : Statement} {name : String}
    (spelling : Spelling next offset text (.content [statement]))
    (isName : statement.name? = some name) : ∀ char ∈ name.toList, isNameChar char = true := by
  cases spelling with
  | text => cases isName
  | element => cases isName
  | block starts =>
    obtain ⟨present, tail, equal, plain⟩ := blockStart_eq_ok (starts [])
    have success := starts []
    rw [equal, blockStart_hash offset present plain] at success
    obtain ⟨-, -, -, -, -, named, -⟩ := tagCall_name (blockOpening_eq_ok success).1 isName
    exact named
  | single takes =>
    cases single_yields.property takes with
    | mustache isMustache =>
      obtain ⟨-, -, -, parts, readParts, call, -⟩ := mustache_eq_ok (isMustache.takes [])
      have isCallee : parts.call.callee.name? = some name := by rwa [← call]
      obtain ⟨-, -, -, -, -, named, -⟩ := tagCall_name readParts isCallee
      exact named
    | curlyComment => cases isName
    | comment => cases isName
    | element => cases isName

/-! ### The text of a conditional -/

theorem print_conditional {source piece : List Char} {statement : Statement}
    (printed : statement.print source = .ok piece) (name identity : String) :
    ∃ rest, (Probe.conditional name identity statement).print source =
      .ok (conditionalStart name identity (Probe.outerTrim statement) ++ rest) := by
  obtain ⟨_, _, prints⟩ := exists_print_conditional printed name identity
  exact ⟨_, prints⟩

/-- If the opening tag of a conditional is read and asks for the name, then the name is read from the
string that it is written as. -/
theorem quotedString?_of_conditionalStart {name identity other : String} {trim : Trim}
    {rest : List Char} {opening : BlockOpening} {after : Cursor} (plain : '"' ∉ name.toList)
    (success : blockStart ⟨0, conditionalStart name identity trim ++ rest⟩ = .ok (opening, after))
    (asks : opening.parts.call.mapSpans eraseSpan =
      ⟨Build.path "if", [Probe.question name other], []⟩) :
    ∃ tail size, quotedString? '"' (name.toList ++ '"' :: tail) = some (name.toList, size) := by
  obtain ⟨tail, text⟩ : ∃ tail, conditionalStart name identity trim ++ rest =
      '{' :: '{' :: (tilde trim.before ++ '#' :: ("if".toList ++ ' ' :: '(' ::
        (Probe.helperName.toList ++ ' ' :: '"' :: (name.toList ++ '"' :: tail)))) := by
    refine ⟨' ' :: (Literal.string identity).print ++ ')' :: '}' :: '}' :: rest, ?_⟩
    simp [conditionalStart, question, print_string plain, tilde]
  rw [text, blockStart_hash 0 trim.before ⟨by simp, by simp⟩] at success
  obtain ⟨question, afterQuestion, more, isQuestion, readQuestion⟩ := callParts_first
    (nests_expression 2) (readsBack_word "if" (by simp)) (by decide) (.inl rfl)
    (blockOpening_eq_ok success).1
  obtain ⟨parts, readParts, rfl⟩ := callParts_of_call readQuestion
  obtain ⟨subject, afterSubject, others, isSubject, readSubject⟩ := callParts_first
    (nests_expressionWithin _) (readsBack_word Probe.helperName (by simp)) (by simp) (.inr rfl)
    readParts
  obtain ⟨chars, width, span, found, rfl⟩ := quotedString?_of_expression readSubject
  have same := congrArg Call.positional asks
  rw [Call.mapSpans_positional, isQuestion, mapPositional, Expression.mapSpans] at same
  obtain ⟨sameCall, -⟩ := Expression.call.inj (List.cons.inj same).1
  have sameSubject := congrArg Call.positional sameCall
  rw [Call.mapSpans_positional, isSubject, mapPositional, Expression.mapSpans] at sameSubject
  obtain ⟨sameName, -⟩ := Expression.literal.inj (List.cons.inj sameSubject).1
  refine ⟨tail, width, ?_⟩
  rw [found, ← Literal.string.inj sameName, String.toList_ofList]

end Reader

/-! ### What is asked -/

/-- The statements are one `if` block with one argument, the probe helper called with the two
strings. -/
def AskFor (name identity : String) : List Statement → Prop
  | [.block tags _ _] => tags.call.mapSpans eraseSpan = ⟨.path "if" none,
      [.call ⟨.path "-probe-is-component" none,
        [.literal (.string name) none, .literal (.string identity) none], []⟩ none], []⟩
  | _ => False

section Asked

variable {name identity : String}

theorem askFor_of_alike {statement copy : Statement}
    (alike : (Probe.conditional name identity statement).mapSpans eraseSpan =
      copy.mapSpans eraseSpan) : AskFor name identity [copy] := by
  rw [Probe.conditional, Statement.mapSpans] at alike
  cases copy with
  | block tags program inverse =>
    rw [Statement.mapSpans] at alike
    obtain ⟨same, -, -⟩ := Statement.block.inj alike
    exact (congrArg BlockTags.call same).symm
  | _ => cases alike

/-- The text of a conditional is read as asking for the name, if the backslashes at the end of the
name come in pairs. -/
theorem askFor_of_paired {source piece text : List Char} {statement : Statement}
    (noQuote : '"' ∉ name.toList) (paired : Name.EndsPaired name) (plain : '\\' ∉ identity.toList)
    (respells : Reader.Respells (fun _ => True) source (some '{') piece (.content [statement]))
    (prints : (Probe.conditional name identity statement).print source = .ok text) :
    ∃ copy, Reader.Spelling none 0 text (.content copy) ∧ AskFor name identity copy := by
  obtain ⟨again, -, respelled⟩ := Reader.exists_respells_conditional
    (Reader.readsBack_paired noQuote paired) (Reader.readsBack_string plain) .empty respells
  obtain ⟨copy, spelled, twins, -⟩ := respelled.single 0
  have twin := twins again (stands_self again)
  obtain ⟨printed, left, right⟩ := twin.print
  have isAgain : printed = again :=
    Except.ok.inj (right.symm.trans (spelled.print (stands_self again)))
  have isText : text = again := by
    have alone := print_of_printBody (isAgain ▸ left)
    exact Except.ok.inj (prints.symm.trans alone)
  subst isText
  have asks := askFor_of_alike twin.alike_head
  refine ⟨[copy], ?_, asks⟩
  have notText : Reader.startsWithText [copy] = false := by
    cases copy with
    | text => exact asks.elim
    | _ => rfl
  have whole := spelled.cons notText (.nil none _)
  rwa [List.append_nil] at whole

/-- If the text of a conditional is read as asking for the name, the backslashes at the end of the
name come in pairs. -/
theorem paired_of_askFor {rest : List Char} {trim : Trim} {copy : List Statement}
    (noQuote : '"' ∉ name.toList)
    (spelled : Reader.Spelling none 0 (Reader.conditionalStart name identity trim ++ rest)
      (.content copy)) (asks : AskFor name identity copy) : Name.EndsPaired name := by
  by_contra unpaired
  generalize isText : Reader.conditionalStart name identity trim ++ rest = text at spelled
  cases spelled with
  | nil => exact asks
  | text => exact asks
  | element => exact asks
  | single takes =>
    cases Reader.single_yields.property takes with
    | mustache => exact asks
    | curlyComment => exact asks
    | comment => exact asks
    | element => exact asks
  | @block _ _ start inside tail closing more _ _ _ _ _ _ _ starts content others ends further =>
    have success := starts (inside ++ (tail ++ (closing ++ more)))
    simp only [← List.append_assoc] at success
    rw [← isText] at success
    cases further with
    | nil =>
      obtain ⟨tail, width, found⟩ :=
        Reader.quotedString?_of_conditionalStart noQuote success asks
      exact noQuote (Reader.mem_of_quotedString?_unpaired noQuote unpaired found)
    | _ => exact asks

end Asked

/-- The text of a conditional asks for what it wraps. The conditional around an ambiguous invocation
is printed, and its text is read as one `if` block, whose only argument calls the probe helper with
the name of the invocation and the identity, exactly if the backslashes at the end of the name come
in pairs. -/
theorem conditional_asks (source identity asked other : String) (template : Template)
    (occurrence : Occurrence) (name : String)
    (read : Template.read source identity = .ok template)
    (member : occurrence ∈ template.occurrences)
    (ambiguous : occurrence.statement.Ambiguous occurrence.scope.names name)
    (plain : '\\' ∉ asked.toList) :
    ∃ text, (Probe.conditional name asked occurrence.statement).print source.toList = .ok text ∧
      ((∃ copy, Template.read (String.ofList text) other = .ok copy ∧ AskFor name asked copy.body) ↔
        Name.EndsPaired name) := by
  obtain ⟨scope, statement⟩ := occurrence
  have readFrom := Template.readFrom_of_read read
  obtain ⟨body, rfl, spelling⟩ := Template.read_eq_ok.mp read
  have isName := Reader.name?_of_ambiguousName? (Probe.ambiguousName?_eq_some.mpr ambiguous)
  have isNode := spelling.regular.mem_nodes _ (spelling.regular.mem_statements member)
  cases readFrom _ isNode with
  | @own place piece _ stands span spellingHere =>
    have noQuote : '"' ∉ name.toList := fun quoted =>
      absurd (Reader.isNameChar_of_spelling spellingHere isName _ quoted) (by decide)
    have notText : Reader.startsWithText [statement] = false := by
      cases ambiguous <;> rfl
    have printed := print_of_printBody (spellingHere.print stands)
    obtain ⟨rest, prints⟩ := Reader.print_conditional printed name asked
    refine ⟨_, prints, ?_, fun paired => ?_⟩
    · rintro ⟨copy, readCopy, asks⟩
      obtain ⟨copyBody, rfl, spelled⟩ := Template.read_eq_ok.mp readCopy
      rw [String.toList_ofList] at spelled
      exact paired_of_askFor noQuote spelled asks
    · have front := (spellingHere.cons notText (.nil (some '{') _)).alone
      obtain ⟨again, -, respells⟩ := front.elsewhere stands
      obtain ⟨copyBody, spelled, asks⟩ := askFor_of_paired noQuote paired plain respells prints
      refine ⟨⟨other, _, copyBody⟩, Template.read_eq_ok.mpr ⟨copyBody, rfl, ?_⟩, asks⟩
      rwa [String.toList_ofList]

/-- The invocations of a template that are ambiguous by the name. -/
def Template.invocationsOf (template : Template) (name : String) : List Occurrence :=
  template.occurrences.filter fun occurrence =>
    Probe.ambiguousName? occurrence.scope occurrence.statement = some name

theorem Template.mem_invocationsOf {template : Template} {name : String} {occurrence : Occurrence} :
    occurrence ∈ template.invocationsOf name ↔ occurrence ∈ template.occurrences ∧
      occurrence.statement.Ambiguous occurrence.scope.names name := by
  rw [invocationsOf, List.mem_filter, decide_eq_true_iff, Probe.ambiguousName?_eq_some]

/-- A block whose name holds a backslash and ends in two. -/
def pairedSource : String := "<p>\x7b\x7b#x\\y\\\\ as |z|\x7d\x7dé\x7b\x7b/x\\y\\\\\x7d\x7d</p>"

theorem conditional_asks_pairedSource : ∃ template occurrence text copy,
    Template.read pairedSource "a.hbs" = .ok template ∧ occurrence ∈ template.occurrences ∧
      occurrence.statement.Ambiguous occurrence.scope.names "x\\y\\\\" ∧
      (Probe.conditional "x\\y\\\\" quotedIdentity occurrence.statement).print
        pairedSource.toList = .ok text ∧
      Template.read (String.ofList text) "b.hbs" = .ok copy ∧
      AskFor "x\\y\\\\" quotedIdentity copy.body := by
  have succeeds : ((Template.read pairedSource "a.hbs").toOption.any fun template =>
      decide (0 < (template.invocationsOf "x\\y\\\\").length)) = true := by decide +kernel
  obtain ⟨template, read, invoked⟩ := Template.exists_of_read succeeds
  obtain ⟨occurrence, found⟩ := List.exists_mem_of_length_pos invoked
  obtain ⟨member, ambiguous⟩ := Template.mem_invocationsOf.mp found
  obtain ⟨text, prints, asks⟩ := conditional_asks pairedSource "a.hbs" quotedIdentity "b.hbs"
    template occurrence "x\\y\\\\" read member ambiguous (by decide)
  obtain ⟨copy, readCopy, asked⟩ := asks.mpr (by decide)
  exact ⟨template, occurrence, text, copy, read, member, ambiguous, prints, readCopy, asked⟩

/-- An inline tag whose name ends in one backslash. -/
def unpairedSource : String := "\x7b\x7bfoo\\\x7d\x7d"

/-- The text of its conditional. The backslash takes away the quote that ends the name. -/
def unpairedText : String :=
  "\x7b\x7b#if (-probe-is-component \"foo\\\" \"a.hbs\")\x7d\x7d\x7b\x7bfoo\\\x7d\x7d" ++
    "\x7b\x7belse\x7d\x7d\x7b\x7bfoo\\\x7d\x7d\x7b\x7b/if\x7d\x7d"

/-- The conditional around an ambiguous invocation is printed, and its text cannot be read. -/
theorem conditional_unpairedSource : ∃ template occurrence,
    Template.read unpairedSource "a.hbs" = .ok template ∧ occurrence ∈ template.occurrences ∧
      occurrence.statement.Ambiguous occurrence.scope.names "foo\\" ∧
      (Probe.conditional "foo\\" "a.hbs" occurrence.statement).print unpairedSource.toList =
        .ok unpairedText.toList ∧
      ∀ copy, Template.read unpairedText "a.hbs" ≠ .ok copy := by
  have succeeds : ((Template.read unpairedSource "a.hbs").toOption.any fun template =>
      decide (((template.invocationsOf "foo\\").map fun occurrence =>
        (Probe.conditional "foo\\" "a.hbs" occurrence.statement).print unpairedSource.toList) =
          [.ok unpairedText.toList])) = true := by decide +kernel
  obtain ⟨template, read, prints⟩ := Template.exists_of_read succeeds
  obtain ⟨occurrence, found, printed⟩ := List.mem_map.mp (prints ▸ List.mem_singleton_self _)
  obtain ⟨member, ambiguous⟩ := Template.mem_invocationsOf.mp found
  have refused : (Template.read unpairedText "a.hbs").toBool = false := by decide +kernel
  refine ⟨template, occurrence, read, member, ambiguous, printed, fun copy reads => ?_⟩
  rw [reads] at refused
  cases refused

end TagMigration
