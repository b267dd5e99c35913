/-
Conditionals are read back. The tags of a conditional are spelled out from nothing but the
name and the identity that it asks about, and the reader takes the text for the same
tags again if neither holds a backslash. The two branches are copies of the text of the
invocation. So a template that was instrumented is spelled again, and the conditionals in
that spelling are recognised: nothing in it is probed a second time.
-/
import TagMigration.Proofs.Reading.Places
import TagMigration.Proofs.Reading.Respelled
import TagMigration.Proofs.Reading.Written

namespace TagMigration.Reader

/-! ### The tags of a conditional -/

/-- The opening tag of a block around a call that is read back. -/
theorem exists_blockStart {call : Call} {inside : List Char} {name : String}
    (callBack : CallReadsBack inside call) (named : call.callee.name? = some name)
    (plain : inside.head? ≠ some '>' ∧ inside.head? ≠ some '*') (nonempty : inside ≠ [])
    (before after : Bool) (offset : Nat) :
    ∃ opening, Takes blockStart offset
        ('{' :: '{' :: (tilde before ++ '#' :: (inside ++ tilde after ++ ['}', '}']))) opening ∧
      opening.parts.call.mapSpans eraseSpan = call ∧ opening.parts.params = [] ∧
      opening.parts.trimAfter = after ∧ opening.trimBefore = before ∧ opening.name = name := by
  obtain ⟨parts, alike, noParams, trimAfter, isCall⟩ := callBack
    (offset + byteSize ('{' :: '{' :: tilde before) + byteSize ['#']) .braces after
    (fun _ => by decide)
  have sameName : parts.call.callee.name? = some name := by
    rw [← named, ← alike, Call.mapSpans_callee, Expression.name?_mapSpans]
  have place : offset + byteSize ('{' :: '{' :: tilde before) + byteSize ['#'] +
      byteSize (inside ++ tilde after) + byteSize ['}', '}'] = offset +
        byteSize ('{' :: '{' :: (tilde before ++ '#' :: (inside ++ tilde after ++ ['}', '}']))) := by
    simp only [byteSize_cons, byteSize_append, byteSize_nil]
    omega
  refine ⟨⟨offset, name, parts, before, ⟨offset, offset +
    byteSize ('{' :: '{' :: (tilde before ++ '#' :: (inside ++ tilde after ++ ['}', '}'])))⟩⟩,
    fun rest => ?_, alike, noParams, trimAfter, rfl, rfl⟩
  have text : '{' :: '{' :: (tilde before ++ '#' :: (inside ++ tilde after ++ ['}', '}'])) ++ rest =
      '{' :: '{' :: (tilde before ++ '#' :: (inside ++ tilde after ++ (['}', '}'] ++ rest))) := by
    simp
  have plainHere : (inside ++ tilde after ++ (['}', '}'] ++ rest)).head? ≠ some '>' ∧
      (inside ++ tilde after ++ (['}', '}'] ++ rest)).head? ≠ some '*' := by
    obtain ⟨char, letters, rfl⟩ := List.exists_cons_of_ne_nil nonempty
    exact plain
  have reads := (isCall (nests_expression _)).tag offset rest
  rw [show Closer.braces.chars = ['}', '}'] from rfl, place] at reads
  rw [text, blockStart_hash offset before plainHere]
  exact blockOpening_of_tagCall ⟨offset, []⟩ before .unnamedBlock reads sameName

/-- The two words of a question are read back. -/
theorem readsBack_word (word : String) (found : word ∈ ["if", Probe.helperName]) :
    ReadsBack word.toList (Build.path word) := by
  simp only [List.mem_cons, List.not_mem_nil, or_false] at found
  rcases found with rfl | rfl
  · exact readsBack_path ⟨by decide, List.all_eq_true.mp rfl⟩ (by decide) (by decide)
  · exact readsBack_path ⟨by decide, List.all_eq_true.mp rfl⟩ (by decide) (by decide)

/-- The inside of the opening tag of a conditional. -/
def question (name identity : String) : List Char :=
  ['i', 'f', ' ', '('] ++ Probe.helperName.toList ++ ' ' :: (Literal.string name).print ++
    ' ' :: (Literal.string identity).print ++ [')']

theorem question_pieces (name identity : String) :
    question name identity = ['i', 'f'] ++ (' ' :: ('(' :: (Probe.helperName.toList ++
      (' ' :: (Literal.string name).print ++ (' ' :: (Literal.string identity).print ++ [])) ++
        []) ++ [')']) ++ []) ++ [] := by
  simp [question]

/-- The opening tag of a conditional. -/
def conditionalStart (name identity : String) (trim : Trim) : List Char :=
  '{' :: '{' :: (tilde trim.before ++ '#' :: (question name identity ++ tilde false ++ ['}', '}']))

theorem printOpen_conditionalTags (name identity : String) (trim : Trim) (source : List Char) :
    (Probe.conditionalTags name identity trim).printOpen source [] false =
      .ok (conditionalStart name identity trim) := by
  have call : (Probe.conditionalTags name identity trim).call.print source =
      .ok (question name identity) := by
    simp only [Probe.conditionalTags, Probe.question, Build.path, Build.string, Call.print,
      Expression.print, printPositional, printNamed, copyOr]
    rw [question_pieces]
    rfl
  rw [BlockTags.printOpen, call]
  show Except.ok (openBraces ++ tilde trim.before ++ ['#'] ++ question name identity ++ [] ++
    tilde false ++ closeBraces) = _
  simp [conditionalStart, openBraces, closeBraces]

section Opening

variable {name identity : String}
  (nameBack : ReadsBack (Literal.string name).print (.literal (.string name) none))
  (identityBack : ReadsBack (Literal.string identity).print (.literal (.string identity) none))

include nameBack identityBack

/-- The question of a conditional is read back if both of its strings are. -/
theorem callReadsBack_question (trim : Trim) :
    CallReadsBack (question name identity) (Probe.conditionalTags name identity trim).call := by
  have inner := callReadsBack (readsBack_word Probe.helperName (by simp))
    (positionalReadsBack_cons nameBack
      (positionalReadsBack_cons identityBack positionalReadsBack_nil)) namedReadsBack_nil
  have outer := callReadsBack (readsBack_word "if" (by simp))
    (positionalReadsBack_cons (readsBack_call inner) positionalReadsBack_nil) namedReadsBack_nil
  rw [question_pieces]
  exact outer

/-- The opening tag of a conditional is read back. -/
theorem exists_conditionalOpening (trim : Trim) (offset : Nat) :
    ∃ opening, Takes blockStart offset (conditionalStart name identity trim) opening ∧
      opening.parts.call.mapSpans eraseSpan = (Probe.conditionalTags name identity trim).call ∧
      opening.parts.params = [] ∧ opening.parts.trimAfter = false ∧
      opening.trimBefore = trim.before ∧ opening.name = "if" :=
  exists_blockStart (callReadsBack_question nameBack identityBack trim) rfl
    ⟨by simp [question], by simp [question]⟩ (by simp [question]) trim.before false offset

end Opening

/-- The tag between the branches of a conditional is read back. -/
theorem exists_conditionalElse (name identity : String) (trim : Trim) :
    ∃ text, (∀ source, (Probe.conditionalTags name identity trim).printElse source = .ok text) ∧
      ∀ offset, Takes elseTag offset text .none :=
  ⟨_, fun _ => rfl, fun offset => @elseTag_else false [] [] offset (by simp) (by simp) false⟩

/-- The closing tag of a conditional is read back. -/
theorem exists_conditionalClose (name identity : String) (trim : Trim) :
    ∃ text, (∀ source, (Probe.conditionalTags name identity trim).printClose source = .ok text) ∧
      ∀ offset, Takes (blockEnd "if") offset text ⟨false, trim.after⟩ := by
  refine ⟨_, fun source => ?_, fun offset => @blockEnd_close false [] [] ['i', 'f'] [] offset
    (by simp) (by simp) (by simp) (List.all_eq_true.mp rfl) (by simp) trim.after⟩
  rw [BlockTags.printClose, Probe.conditionalTags, Build.path, Expression.print]
  exact congrArg Except.ok (by simp [tagLead, tagClose, openBraces, closeBraces])

/-- A conditional prints what it holds twice, between its tags. -/
theorem exists_print_conditional {source piece : List Char} {statement : Statement}
    (printed : statement.print source = .ok piece) (name identity : String) :
    ∃ between closing, (Probe.conditional name identity statement).print source =
      .ok (conditionalStart name identity (Probe.outerTrim statement) ++
        (piece ++ (between ++ piece ++ closing))) := by
  have opening := printOpen_conditionalTags name identity (Probe.outerTrim statement) source
  obtain ⟨between, printsElse, -⟩ :=
    exists_conditionalElse name identity (Probe.outerTrim statement)
  obtain ⟨closing, printsClose, -⟩ :=
    exists_conditionalClose name identity (Probe.outerTrim statement)
  have body := printBody_cons printed (printBody.eq_1 source)
  rw [List.append_nil] at body
  rw [Probe.conditional]
  generalize Probe.conditionalTags name identity (Probe.outerTrim statement) = tags
    at opening printsElse printsClose ⊢
  generalize conditionalStart name identity (Probe.outerTrim statement) = start at opening ⊢
  have whole : (Statement.block tags ⟨[statement], [], false⟩ (some ⟨[statement], [], false⟩)).print
      source = .ok (start ++ piece ++ (between ++ piece) ++ closing) :=
    Statement.print_block opening body (printInverse_else (printsElse source) body)
      (printsClose source)
  rw [List.append_assoc, List.append_assoc] at whole
  exact ⟨between, closing, whole⟩

/-! ### Conditionals that were read -/

/-- A conditional that was read is left alone. -/
theorem kept_conditional {next : Option Char} {offset : Nat} {text : List Char}
    {statement : Statement} (spelling : Spelling next offset text (.content [statement]))
    (found : Probe.isConditional statement = true) (identity : String) (scope : Scope) :
    Kept (Probe.rule identity) scope (.content [statement]) := by
  refine kept_single ?_
  cases spelling with
  | text => cases found
  | element => cases found
  | single takes => cases single_yields.property takes <;> cases found
  | block => exact Rule.rewrite_left _ scope found

/-- A text that is read as a twin of a conditional. -/
theorem respells_conditional {source text : List Char} {statement : Statement}
    (found : Probe.isConditional statement = true) (identity : String) (scope : Scope)
    (respells : Respells (fun _ => True) source (some '{') text (.content [statement])) :
    Respells (Kept (Probe.rule identity) scope) source (some '{') text (.content [statement]) := by
  intro offset
  obtain ⟨copy, spelling, twins, -⟩ := respells.single offset
  obtain ⟨other, stands⟩ := exists_stands offset text
  have alike := (twins other stands).alike_head
  refine ⟨[copy], spelling, twins, kept_conditional spelling ?_ identity scope⟩
  rw [← eq_of_alike Probe.isConditional_mapSpans alike, found]

/-- An invocation in both branches of a conditional. -/
theorem exists_respells_conditional {source piece : List Char} {statement : Statement}
    {name identity : String}
    (nameBack : ReadsBack (Literal.string name).print (.literal (.string name) none))
    (identityBack : ReadsBack (Literal.string identity).print (.literal (.string identity) none))
    (scope : Scope)
    (respells : Respells (fun _ => True) source (some '{') piece (.content [statement])) :
    ∃ text, text.head? = some '{' ∧ Respells (Kept (Probe.rule identity) scope) source (some '{')
      text (.content [Probe.conditional name identity statement]) := by
  obtain ⟨between, printsElse, middle⟩ :=
    exists_conditionalElse name identity (Probe.outerTrim statement)
  obtain ⟨closing, printsClose, ends⟩ :=
    exists_conditionalClose name identity (Probe.outerTrim statement)
  have found : Probe.isConditional (Probe.conditional name identity statement) = true :=
    Probe.isWrapper_conditionalTags name identity (Probe.outerTrim statement) statement statement
  generalize isStart : conditionalStart name identity (Probe.outerTrim statement) = start
  refine ⟨start ++ piece ++ (between ++ piece) ++ closing, by simp [← isStart, conditionalStart],
    respells_conditional found identity scope fun offset => ?_⟩
  obtain ⟨opening, starts, alike, noParams, trimAfter, trimBefore, isIf⟩ :=
    exists_conditionalOpening nameBack identityBack (Probe.outerTrim statement) offset
  rw [isStart] at starts
  obtain ⟨first, spelling, twins, -⟩ := respells.single (offset + byteSize start)
  obtain ⟨second, spellingElse, twinsElse, -⟩ :=
    respells.single (offset + byteSize (start ++ piece) + byteSize between)
  have others (span close : Span) : Spelling (some '{') (offset + byteSize (start ++ piece))
      (between ++ piece) (.inverse (opening.closed .none
        (some ⟨offset + byteSize (start ++ piece),
          offset + byteSize (start ++ piece) + byteSize between⟩)
        ⟨false, (Probe.outerTrim statement).after⟩ span close) (some ⟨[second], [], false⟩)) :=
    .elseBody (middle _) rfl spellingElse
  have spelled :=
    (Spelling.block starts spelling (others _ _) (isIf ▸ ends _) (.nil (some '{') _)).alone
  rw [noParams] at spelled
  refine ⟨_, spelled, fun other stands => ?_, trivial⟩
  have isOpening := blockStart_yields.property starts
  refine .block ⟨?_, ?_, ?_⟩ ?_ (twins other stands.left.left.right)
    (.elseBody ?_ (twinsElse other stands.left.right.right)) .nil
  · simp only [BlockOpening.closed, BlockOpening.tags, BlockTags.mapSpans, alike, trimAfter,
      trimBefore]
    rfl
  · have noNamed : opening.parts.call.named = [] := by
      rw [← List.isEmpty_iff, ← mapNamed_isEmpty eraseSpan, ← Call.mapSpans_named, alike]
      rfl
    refine .of_eq rfl ?_
    rw [BlockOpening.closed, BlockOpening.tags, Call.toAttributes, noNamed]
    rfl
  · exact .of_eq (isStart ▸ printOpen_conditionalTags name identity _ source)
      (isOpening.printOpen stands.left.left.left rfl _ _)
  · refine .of_eq (printsClose source) ?_
    rw [byteSize_append (start ++ piece ++ (between ++ piece)), ← Nat.add_assoc]
    exact stands.right.copyOr _
  · exact .of_eq (printsElse source) (stands.left.right.left.copyOr _)

/-! ### Phrases that no rule touches -/

/-- The rule that does nothing. -/
def idle : Rule where
  leaves _ := false
  replace? _ _ := none

theorem idle_rewritePhrase {phrase : Phrase} (regular : Regular phrase) :
    ∀ scope, idle.rewritePhrase scope phrase = (phrase, 0) := by
  have replaced (scope : Scope) (statement : Statement) :
      idle.replaced scope statement = (statement, 0) := rfl
  have content {body : List Statement}
      (same : ∀ scope, idle.rewritePhrase scope (.content body) = (.content body, 0))
      (scope : Scope) : idle.rewriteBody scope body = (body, 0) := kept_content (same scope)
  have inverse {tags : BlockTags} {others : Option Program}
      (same : ∀ scope, idle.rewritePhrase scope (.inverse tags others) = (.inverse tags others, 0))
      (scope : Scope) : idle.rewriteInverse scope others = (others, 0) := kept_inverse (same scope)
  induction regular with
  | nil =>
    intro scope
    rw [Rule.rewritePhrase, Rule.rewriteBody]
  | leaf isLeaf more sameMore =>
    intro scope
    rw [Rule.rewritePhrase, Rule.rewriteBody_cons, Rule.rewrite_leaf _ _ isLeaf, replaced,
      content sameMore]
    rfl
  | element inner more sameInner sameMore =>
    intro scope
    rw [Rule.rewritePhrase, Rule.rewriteBody_cons, Rule.rewrite_element, content sameInner,
      content sameMore]
    rfl
  | block inner others more sameInner sameOthers sameMore =>
    intro scope
    rw [Rule.rewritePhrase, Rule.rewriteBody_cons, Rule.rewrite_block _ _ rfl, content sameInner,
      inverse sameOthers, content sameMore]
    rfl
  | noInverse =>
    intro scope
    rw [Rule.rewritePhrase, Rule.rewriteInverse]
  | elseBody inner sameInner =>
    intro scope
    rw [Rule.rewritePhrase, Rule.rewriteInverse_else, content sameInner]
  | elseBlock inner others sameInner sameOthers =>
    intro scope
    rw [Rule.rewritePhrase, Rule.rewriteInverse_chain, content sameInner, inverse sameOthers]
    rfl

/-- Nothing is respelled by the rule that does nothing. -/
theorem respelling_idle (source : List Char) : Respelling idle source (fun _ => True) where
  only _ _ _ := rfl
  notText replaces := nomatch replaces
  blind _ _ := rfl
  shallow _ _ := trivial
  leaves left := nomatch left
  replaces replaces := nomatch replaces

/-- What was read is read at every other place. -/
theorem Spelling.elsewhere {source : List Char} {next : Option Char} {offset : Nat}
    {text : List Char} {phrase : Phrase} (spelling : Spelling next offset text phrase)
    (stands : Stands source offset text) :
    ∃ again, Follows text.head? again.head? ∧
      Respells (fun _ => True) source next again phrase := by
  obtain ⟨again, follows, respells⟩ :=
    spelling.respells (respelling_idle source) stands .empty fun _ _ => trivial
  rw [idle_rewritePhrase spelling.regular] at respells
  exact ⟨again, follows, respells.mono fun _ _ => trivial⟩

/-! ### Probes -/

/-- An ambiguous invocation is ambiguous by the name that it calls. -/
theorem name?_of_classify {invocation : Invocation} {scope : Scope} {name : String}
    (classified : invocation.classify scope = .ambiguous name) :
    invocation.call.callee.name? = some name := by
  unfold Invocation.classify at classified
  split at classified
  · cases classified
  · split at classified
    · cases classified
    · next called isName =>
      rw [isName]
      split at classified
      · cases classified
      · split at classified
        · cases classified
        · cases classified
          rfl

theorem name?_of_ambiguousName? {scope : Scope} {statement : Statement} {name : String}
    (ambiguous : Probe.ambiguousName? scope statement = some name) :
    statement.name? = some name := by
  obtain ⟨invocation, invoked, found⟩ := Option.bind_eq_some_iff.mp ambiguous
  have called : invocation.call.callee.name? = some name := by
    split at found
    · next classified =>
      cases found
      exact name?_of_classify classified
    · cases found
    · cases found
  cases statement <;> cases invoked <;> exact called

/-- What probing makes of a template can be spelled. -/
theorem respelling_probe {identity : String} (plainIdentity : '\\' ∉ identity.toList)
    (source : List Char) :
    Respelling (Probe.rule identity) source
      (fun occurrence => ∀ name, occurrence.statement.name? = some name → '\\' ∉ name.toList) where
  only := Probe.rule_onInvocations identity
  notText replaces := by
    obtain ⟨name, -, rfl⟩ := Option.map_eq_some_iff.mp replaces
    rfl
  blind {scope statement twin} alike stays := by
    have same := eq_of_alike (fun change => Probe.ambiguousName?_mapSpans change scope) alike
    simp only [Probe.rule, Option.map_eq_none_iff] at stays ⊢
    rw [← same, stays]
  shallow _ isFine := isFine
  leaves {scope offset piece tags program inverse} left spelling stands := by
    obtain ⟨again, follows, respells⟩ := spelling.elsewhere stands
    refine ⟨again, follows, respells_conditional ?_ identity scope respells⟩
    exact (Bool.and_eq_true_iff.mp left).2
  replaces {scope statement replacement piece} replaces isFine respells _ := by
    obtain ⟨name, ambiguous, rfl⟩ := Option.map_eq_some_iff.mp replaces
    obtain ⟨text, curly, respells⟩ := exists_respells_conditional
      (readsBack_string (isFine name (name?_of_ambiguousName? ambiguous)))
      (readsBack_string plainIdentity) scope respells
    exact ⟨text, .inl curly, respells⟩

end TagMigration.Reader
