/-
A rewritten template is spelled again. What a pass leaves alone was read from some piece of
the source, and the same piece is read again at any other place; what it puts in place of an
invocation has to be a text of its own. If that can be done for each replacement, it can be
done for the whole: there is a text which is read, wherever it stands, as a twin of the
rewritten phrase, and in that twin the pass finds nothing more to do. The text may begin with an
angle bracket where a brace stood: a run of text ends in front of the one as in front of the other.
-/
import TagMigration.Proofs.Pass.Twins
import TagMigration.Proofs.Reading.Relocation
import TagMigration.Proofs.Tree.Occurrence

namespace TagMigration.Reader

/-! ### Texts that spell a phrase again -/

/-- A phrase that the rule leaves as it is. -/
def Kept (rule : Rule) (scope : Scope) (phrase : Phrase) : Prop :=
  rule.rewritePhrase scope phrase = (phrase, 0)

/-- In front of `next` and wherever it stands, the text is read as a twin of the phrase, which is
over `source`, and the twin has the property. The twin of an inverse settles the `else` tag of its
block and nothing else about the tags around it. -/
def Respells (property : Phrase → Prop) (source : List Char) (next : Option Char)
    (text : List Char) : Phrase → Prop
  | .content body => ∀ offset, ∃ copy, Spelling next offset text (.content copy) ∧
      (∀ other, Stands other offset text → Twin source other (.content body) (.content copy)) ∧
      property (.content copy)
  | .inverse tags others => ∀ offset, ∃ elseSpan copy, ∀ twin : BlockTags,
      twin.elseTrim = tags.elseTrim → twin.elseSpan = elseSpan →
        Spelling (some '{') offset text (.inverse twin copy) ∧
        (∀ other, Stands other offset text →
          Twin source other (.inverse tags others) (.inverse twin copy)) ∧
        property (.inverse twin copy)

theorem exists_stands (offset : Nat) (text : List Char) : ∃ other, Stands other offset text := by
  refine ⟨List.replicate offset 'a' ++ (text ++ []), List.replicate offset 'a', [], rfl, ?_⟩
  induction offset with
  | zero => rfl
  | succ offset inductionHypothesis =>
    rw [List.replicate_succ, byteSize_cons, inductionHypothesis, Nat.add_comm]
    rfl

theorem startsWithText_mapBody (change : Option Span → Option Span) (body : List Statement) :
    startsWithText (mapBody change body) = startsWithText body := by
  rcases body with _ | ⟨statement, rest⟩
  · rfl
  · cases statement <;> rfl

theorem startsWithText_of_twin {source other : List Char} {body copy : List Statement}
    (twins : Twin source other (.content body) (.content copy)) :
    startsWithText copy = startsWithText body := by
  have alike : mapBody eraseSpan body = mapBody eraseSpan copy := twins.alike
  rw [← startsWithText_mapBody eraseSpan, ← alike, startsWithText_mapBody]

/-- A statement other than text is read in front of everything. -/
theorem Spelling.cons {next other : Option Char} {offset : Nat} {piece rest : List Char}
    {statement : Statement} {body : List Statement}
    (spelling : Spelling next offset piece (.content [statement]))
    (notText : startsWithText [statement] = false)
    (more : Spelling other (offset + byteSize piece) rest (.content body)) :
    Spelling other offset (piece ++ rest) (.content (statement :: body)) := by
  cases spelling with
  | text => cases notText
  | single takes tail =>
    cases tail
    rw [List.append_nil] at more ⊢
    exact .single takes more
  | element starts open' content ends tail =>
    cases tail
    rw [List.append_nil] at more ⊢
    exact .element starts open' content ends more
  | block starts content others ends tail =>
    cases tail
    rw [List.append_nil] at more ⊢
    exact .block starts content others ends more

section Respells

variable {rule : Rule} {scope : Scope} {source : List Char} {next : Option Char}

theorem Respells.mono {first second : Phrase → Prop} {text : List Char} {phrase : Phrase}
    (respells : Respells first source next text phrase)
    (weaker : ∀ phrase, first phrase → second phrase) :
    Respells second source next text phrase := by
  cases phrase with
  | content body =>
    intro offset
    obtain ⟨copy, spelling, twins, property⟩ := respells offset
    exact ⟨copy, spelling, twins, weaker _ property⟩
  | inverse tags others =>
    intro offset
    obtain ⟨elseSpan, copy, respells⟩ := respells offset
    refine ⟨elseSpan, copy, fun twin elseTrim span => ?_⟩
    obtain ⟨spelling, twins, property⟩ := respells twin elseTrim span
    exact ⟨spelling, twins, weaker _ property⟩

/-- A body of one statement is read as a body of one statement. -/
theorem Respells.single {property : Phrase → Prop} {piece : List Char} {statement : Statement}
    (respells : Respells property source next piece (.content [statement])) (offset : Nat) :
    ∃ copy, Spelling next offset piece (.content [copy]) ∧
      (∀ other, Stands other offset piece →
        Twin source other (.content [statement]) (.content [copy])) ∧
      property (.content [copy]) := by
  obtain ⟨copies, spelling, twins, has⟩ := respells offset
  obtain ⟨other, stands⟩ := exists_stands offset piece
  have alike : mapBody eraseSpan [statement] = mapBody eraseSpan copies := (twins other stands).alike
  rcases copies with _ | ⟨copy, _ | ⟨second, rest⟩⟩
  · cases alike
  · exact ⟨copy, spelling, twins, has⟩
  · cases (List.cons.inj alike).2

theorem kept_cons {statement : Statement} {body : List Statement}
    (first : Kept rule scope (.content [statement])) (more : Kept rule scope (.content body)) :
    Kept rule scope (.content (statement :: body)) := by
  simp only [Kept, Rule.rewritePhrase, Rule.rewriteBody, Prod.mk.injEq, Phrase.content.injEq,
    List.cons.injEq, and_true, Nat.add_zero] at first more ⊢
  rw [first.1, first.2, more.1, more.2]
  exact ⟨⟨rfl, rfl⟩, rfl⟩

/-- A statement other than text in front of a body. -/
theorem Respells.cons {piece rest : List Char} {statement : Statement} {body : List Statement}
    (first : Respells (Kept rule scope) source (some '{') piece (.content [statement]))
    (notText : startsWithText [statement] = false)
    (more : Respells (Kept rule scope) source next rest (.content body)) :
    Respells (Kept rule scope) source next (piece ++ rest) (.content (statement :: body)) := by
  intro offset
  obtain ⟨copy, spelling, twins, kept⟩ := first.single offset
  obtain ⟨copies, spellingMore, twinsMore, keptMore⟩ := more (offset + byteSize piece)
  obtain ⟨other, stands⟩ := exists_stands offset piece
  have copyNotText : startsWithText [copy] = false := by
    rw [startsWithText_of_twin (twins other stands), notText]
  refine ⟨copy :: copies, spelling.cons copyNotText spellingMore, fun other stands => ?_,
    kept_cons kept keptMore⟩
  exact (twins other stands.left).append (twinsMore other stands.right)

end Respells

/-! ### Rules whose replacements are spelled -/

/-- What a text may begin with in place of one that begins with `before`. -/
def Follows (before after : Option Char) : Prop :=
  after = before ∨ before = some '{' ∧ after = some '<'

theorem Follows.isRun {before after next : Option Char} (follows : Follows before after)
    {run : List Char} (isRun : IsRun (before.or next) run) : IsRun (after.or next) run := by
  rcases follows with rfl | ⟨rfl, rfl⟩
  · exact isRun
  · exact isRun.bracket

theorem Follows.append {piece again : List Char} (follows : Follows piece.head? again.head?)
    (nonempty : piece ≠ []) (rest more : List Char) :
    Follows (piece ++ rest).head? (again ++ more).head? := by
  obtain ⟨char, letters, rfl⟩ := List.exists_cons_of_ne_nil nonempty
  rcases follows with same | ⟨isBrace, isBracket⟩
  · refine .inl ?_
    rw [head?_append_or, head?_append_or, same]
    rfl
  · refine .inr ⟨isBrace, ?_⟩
    rw [head?_append_or, isBracket]
    rfl

theorem Follows.front {piece : List Char} (nonempty : piece ≠ []) (rest more : List Char) :
    Follows (piece ++ rest).head? (piece ++ more).head? :=
  .append (.inl rfl) nonempty rest more

/-- The content of a statement that is a block is spelled again. -/
def RespellsContent (rule : Rule) (source : List Char) (scope : Scope) (statement : Statement) :
    Prop :=
  ∀ tags program params chained inverse,
    statement = .block tags ⟨program, params, chained⟩ inverse →
      ∃ text, Respells (Kept rule (scope.within params)) source (some '{') text (.content program)

theorem respellsContent_block {rule : Rule} {source text : List Char} {scope : Scope}
    {tags : BlockTags} {program : List Statement} {params : List String} {chained : Bool}
    {inverse : Option Program}
    (respells : Respells (Kept rule (scope.within params)) source (some '{') text
      (.content program)) :
    RespellsContent rule source scope (.block tags ⟨program, params, chained⟩ inverse) := by
  rintro _ _ _ _ _ ⟨⟩
  exact ⟨text, respells⟩

/-- A rule that does not look at spans, and whose work on `source` can be spelled: what it leaves
alone is read again as something that it leaves alone, and what it puts in place of an invocation
is read again as something that it keeps. Invocations may be asked to be `fine`, which must not
depend on what a block holds. -/
structure Respelling (rule : Rule) (source : List Char) (fine : Occurrence → Prop) : Prop where
  only : rule.OnInvocations
  notText : ∀ {scope statement replacement}, rule.replace? scope statement = some replacement →
    startsWithText [replacement] = false
  blind : ∀ {scope statement twin},
    Statement.mapSpans eraseSpan statement = twin.mapSpans eraseSpan →
    rule.replace? scope statement = none → rule.replace? scope twin = none
  shallow : ∀ {scope tags program inner params chained inverse others},
    Option.isSome others = Option.isSome inverse →
    fine ⟨scope, .block tags ⟨program, params, chained⟩ inverse⟩ →
    fine ⟨scope, .block tags ⟨inner, params, chained⟩ others⟩
  leaves : ∀ {scope offset piece tags program inverse},
    rule.leaves (.block tags program inverse) = true →
    Spelling (some '{') offset piece (.content [.block tags program inverse]) →
    Stands source offset piece → ∃ text, Follows piece.head? text.head? ∧
      Respells (Kept rule scope) source (some '{') text (.content [.block tags program inverse])
  replaces : ∀ {scope statement replacement piece},
    rule.replace? scope statement = some replacement → fine ⟨scope, statement⟩ →
    Respells (fun _ => True) source (some '{') piece (.content [statement]) →
    RespellsContent rule source scope statement →
    ∃ text, Follows (some '{') text.head? ∧
      Respells (Kept rule scope) source (some '{') text (.content [replacement])

/-- A statement at which the rule may do one thing only, to replace it. -/
def Settled (rule : Rule) (scope : Scope) (phrase : Phrase) : Prop :=
  ∀ statement, phrase = .content [statement] →
    rule.rewrite scope statement = (statement, 0) ∨
      rule.rewrite scope statement = rule.replaced scope statement

section Steps

variable {rule : Rule} {scope : Scope} {source : List Char} {fine : Occurrence → Prop}

theorem kept_single {statement : Statement} (stays : rule.rewrite scope statement = (statement, 0)) :
    Kept rule scope (.content [statement]) := by
  simp only [Kept, Rule.rewritePhrase, Rule.rewriteBody, stays]

/-- A statement and what the rule makes of it. -/
theorem Respelling.settle (respelling : Respelling rule source fine) {piece : List Char}
    {statement : Statement}
    (respells : Respells (Settled rule scope) source (some '{') piece (.content [statement]))
    (content : RespellsContent rule source scope statement) (isFine : fine ⟨scope, statement⟩)
    (curly : statement.invocation?.isSome = true → piece.head? = some '{') :
    ∃ text, Follows piece.head? text.head? ∧ Respells (Kept rule scope) source (some '{') text
      (.content [(rule.replaced scope statement).1]) := by
  cases replaces : rule.replace? scope statement with
  | none =>
    rw [Rule.replaced_of_none scope replaces]
    refine ⟨piece, .inl rfl, fun offset => ?_⟩
    obtain ⟨copy, spelling, twins, settled⟩ := respells.single offset
    obtain ⟨other, stands⟩ := exists_stands offset piece
    have stays := respelling.blind (twins other stands).alike_head replaces
    refine ⟨[copy], spelling, twins, kept_single ?_⟩
    rcases settled copy rfl with kept | settles
    · exact kept
    · rw [settles, Rule.replaced_of_none scope stays]
  | some replacement =>
    rw [Rule.replaced_of_some scope replaces]
    have starts : piece.head? = some '{' := by
      refine curly ?_
      cases invoked : statement.invocation? with
      | some invocation => rfl
      | none =>
        rw [respelling.only scope statement invoked] at replaces
        cases replaces
    rw [starts]
    exact respelling.replaces replaces isFine (respells.mono fun _ _ => trivial) content

/-- An inline tag begins with a brace. -/
theorem head?_of_invocation {offset : Nat} {piece : List Char} {statement : Statement}
    (takes : Takes single offset piece statement) (invoked : statement.invocation?.isSome = true) :
    piece.head? = some '{' := by
  have success := takes []
  rw [List.append_nil] at success
  rcases single_starts success with ⟨tail, rfl, -⟩ | starts | starts
  · rfl
  · rw [single_comment starts] at success
    obtain ⟨⟨remark, last⟩, -, success⟩ := bind_eq_ok success
    cases success
    cases invoked
  · rw [single_element starts, element_eq refuse starts] at success
    obtain ⟨⟨⟨tag, start⟩, last⟩, -, success⟩ := bind_eq_ok success
    simp only at success
    split at success
    · cases success
      cases invoked
    · cases success

theorem rewrite_of_single {offset : Nat} {piece : List Char} {statement : Statement}
    (takes : Takes Reader.single offset piece statement) :
    rule.rewrite scope statement = rule.replaced scope statement := by
  cases single_yields.property takes with
  | element =>
    rw [Rule.rewrite_element, Rule.rewriteBody]
    simp only [Nat.zero_add]
  | _ => exact rule.rewrite_leaf scope rfl

/-- A statement without content. -/
theorem respells_single {next : Option Char} {offset : Nat} {piece : List Char}
    {statement : Statement} (takes : Takes Reader.single offset piece statement)
    (stands : Stands source offset piece) :
    Respells (Settled rule scope) source next piece (.content [statement]) := by
  intro place
  obtain ⟨copy, takesCopy, twins⟩ := exists_single takes place
  refine ⟨[copy], (Spelling.single takesCopy (.nil next _)).alone,
    fun other standsThere => twins stands standsThere .nil, ?_⟩
  rintro statement ⟨rfl⟩
  exact .inr (rewrite_of_single takesCopy)

theorem kept_content {body : List Statement} (kept : Kept rule scope (.content body)) :
    rule.rewriteBody scope body = (body, 0) := by
  rw [Kept, Rule.rewritePhrase, Prod.mk.injEq] at kept
  exact Prod.ext (Phrase.content.inj kept.1) kept.2

theorem kept_inverse {tags : BlockTags} {others : Option Program}
    (kept : Kept rule scope (.inverse tags others)) :
    rule.rewriteInverse scope others = (others, 0) := by
  rw [Kept, Rule.rewritePhrase, Prod.mk.injEq] at kept
  exact Prod.ext (Phrase.inverse.inj kept.1).2 kept.2

theorem kept_of_body {body : List Statement} (same : rule.rewriteBody scope body = (body, 0)) :
    Kept rule scope (.content body) := by
  rw [Kept, Rule.rewritePhrase, same]

theorem kept_of_inverse {tags : BlockTags} {others : Option Program}
    (same : rule.rewriteInverse scope others = (others, 0)) :
    Kept rule scope (.inverse tags others) := by
  rw [Kept, Rule.rewritePhrase, same]

theorem kept_uncons {statement : Statement} {body : List Statement}
    (kept : Kept rule scope (.content (statement :: body))) :
    rule.rewrite scope statement = (statement, 0) ∧ Kept rule scope (.content body) := by
  have same := kept_content kept
  rw [rule.rewriteBody_cons, Prod.mk.injEq, List.cons.injEq, Nat.add_eq_zero_iff] at same
  obtain ⟨⟨first, more⟩, count, countMore⟩ := same
  exact ⟨Prod.ext first count, kept_of_body (Prod.ext more countMore)⟩

theorem settled_block {tags : BlockTags} {program : List Statement} {params : List String}
    {chained : Bool} {inverse : Option Program}
    (kept : Kept rule (scope.within params) (.content program))
    (keptOthers : Kept rule scope (.inverse tags inverse)) :
    Settled rule scope (.content [.block tags ⟨program, params, chained⟩ inverse]) := by
  rintro statement ⟨rfl⟩
  cases left : rule.leaves (.block tags ⟨program, params, chained⟩ inverse) with
  | true => exact .inl (rule.rewrite_left scope left)
  | false =>
    refine .inr ?_
    rw [rule.rewrite_block scope left, kept_content kept, kept_inverse keptOthers]
    simp only [Nat.zero_add]

/-- A block around content and an inverse that are spelled again. -/
theorem respells_block {offset place : Nat}
    {start inside tail closing : List Char} {opening : BlockOpening} {elseTrim closeTrim : Trim}
    {elseSpan : Option Span} {span : Span} {program : List Statement} {inverse : Option Program}
    (starts : Takes blockStart offset start opening) (stands : Stands source offset start)
    (ends : Takes (blockEnd opening.name) place closing closeTrim)
    (standsEnd : Stands source place closing)
    (content : Respells (Kept rule (scope.within opening.parts.params)) source (some '{') inside
      (.content program))
    (others : Respells (Kept rule scope) source (some '{') tail
      (.inverse (opening.closed elseTrim elseSpan closeTrim span
        ⟨place, place + byteSize closing⟩) inverse)) :
    Respells (Settled rule scope) source (some '{') (start ++ inside ++ tail ++ closing)
      (.content [.block (opening.closed elseTrim elseSpan closeTrim span
        ⟨place, place + byteSize closing⟩) ⟨program, opening.parts.params, false⟩ inverse]) := by
  intro there
  obtain ⟨copyOpening, takesCopy, sameName, sameParams, opens⟩ :=
    exists_opening blockStart_shift blockStart_yields starts there
  obtain ⟨copy, spelling, twins, kept⟩ := content (there + byteSize start)
  obtain ⟨elseCopy, copyOthers, respells⟩ := others (there + byteSize (start ++ inside))
  obtain ⟨spellingOthers, twinsOthers, keptOthers⟩ := respells
    (copyOpening.closed elseTrim elseCopy closeTrim
      ⟨there, there + byteSize (start ++ inside ++ tail ++ closing)⟩
      ⟨there + byteSize (start ++ inside ++ tail),
        there + byteSize (start ++ inside ++ tail ++ closing)⟩) rfl rfl
  have endsCopy := takes_everywhere (blockEnd_shift · opening.name ·)
    (blockEnd_takesOnly opening.name) ends (there + byteSize (start ++ inside ++ tail))
  rw [← sameName] at endsCopy
  refine ⟨_, (Spelling.block takesCopy spelling spellingOthers endsCopy (.nil (some '{') _)).alone,
    fun other standsThere => ?_, ?_⟩
  · have standsClose := standsThere.right
    rw [← sameParams]
    refine .block ((opens stands standsThere.left.left.left).closed ..) ?_
      (twins other standsThere.left.left.right) (twinsOthers other standsThere.left.right) .nil
    refine .of_eq (standsEnd.copyOr _) ?_
    rw [byteSize_append (start ++ inside ++ tail), ← Nat.add_assoc]
    exact standsClose.copyOr _
  · rw [← sameParams] at kept
    exact settled_block kept keptOthers

theorem rewrite_element_of_kept (only : rule.OnInvocations) {tags : ElementTags}
    {children : List Statement} (kept : Kept rule (scope.within tags.params) (.content children)) :
    rule.rewrite scope (.element tags children) = (.element tags children, 0) := by
  have stays := only scope (.element tags children) rfl
  rw [rule.rewrite_element, kept_content kept]
  simp only [Rule.replaced_of_none scope stays]

/-- An element around children that are spelled again. -/
theorem respells_element (only : rule.OnInvocations) {next : Option Char} {offset place : Nat}
    {opening inside closing : List Char} {tag : String} {start : StartTag} {span : Span}
    {children : List Statement} (starts : Takes elementStart offset opening (tag, start))
    (open' : (start.selfClosing || isVoidTag tag) = false) (stands : Stands source offset opening)
    (ends : Takes (elementEnd tag) place closing ()) (standsEnd : Stands source place closing)
    (content : Respells (Kept rule (scope.within start.params)) source (some '<') inside
      (.content children)) :
    Respells (Kept rule scope) source next (opening ++ inside ++ closing)
      (.content [.element (start.closed tag span ⟨offset, offset + byteSize opening⟩
        ⟨place, place + byteSize closing⟩) children]) := by
  intro there
  obtain ⟨copyStart, takesCopy, sameForm, sameParams, alike⟩ := exists_elementStart starts there
  obtain ⟨copy, spelling, twins, kept⟩ := content (there + byteSize opening)
  have endsCopy := takes_everywhere (elementEnd_shift · tag ·) (elementEnd_takesOnly tag) ends
    (there + byteSize (opening ++ inside))
  have spelled :=
    (Spelling.element takesCopy (by rw [sameForm, open']) spelling endsCopy (.nil next _)).alone
  refine ⟨_, spelled, fun other standsThere => ?_, kept_single ?_⟩
  · have standsClose := standsThere.right
    refine .element ?_ ?_ (fun _ => ?_) (twins other standsThere.left.right) .nil
    · exact StartTag.alike_tags alike ..
    · exact .of_eq (stands.copyOr _) (standsThere.left.left.copyOr _)
    · refine .of_eq (standsEnd.copyOr _) ?_
      rw [byteSize_append (opening ++ inside), ← Nat.add_assoc]
      exact standsClose.copyOr _
  · rw [← sameParams] at kept
    exact rewrite_element_of_kept only kept

/-- A run of text in front of a body that is spelled again. -/
theorem respells_text (only : rule.OnInvocations) {next : Option Char} {run rest : List Char}
    {body : List Statement} (span : Option Span) (nonempty : run ≠ [])
    (isRun : IsRun (rest.head?.or next) run) (ended : startsWithText body = false)
    (more : Respells (Kept rule scope) source next rest (.content body)) :
    Respells (Kept rule scope) source next (run ++ rest)
      (.content (.text ⟨String.ofList run, span⟩ :: body)) := by
  intro there
  obtain ⟨copy, spelling, twins, kept⟩ := more (there + byteSize run)
  obtain ⟨other, stands⟩ := exists_stands (there + byteSize run) rest
  have endedCopy : startsWithText copy = false := by
    rw [startsWithText_of_twin (twins other stands), ended]
  exact ⟨_, .text nonempty isRun endedCopy spelling,
    fun other stands => twin_text _ _ _ (twins other stands.right),
    kept_cons (kept_single (Rule.rewrite_text scope only _)) kept⟩

/-! ### Inverses -/

theorem respells_noInverse {tags : BlockTags} (elseTrim : tags.elseTrim = .none) :
    Respells (Kept rule scope) source (some '{') [] (.inverse tags none) := by
  intro there
  refine ⟨none, none, fun twin sameTrim elseSpan => ⟨.noInverse (sameTrim.trans elseTrim) elseSpan,
    fun other stands => .noInverse, ?_⟩⟩
  rw [Kept, Rule.rewritePhrase, Rule.rewriteInverse]

theorem respells_elseBody {offset : Nat} {piece inside : List Char} {tags : BlockTags}
    {body : List Statement} (starts : Takes elseTag offset piece tags.elseTrim)
    (prints : tags.printElse source = .ok piece)
    (content : Respells (Kept rule scope) source (some '{') inside (.content body)) :
    Respells (Kept rule scope) source (some '{') (piece ++ inside)
      (.inverse tags (some ⟨body, [], false⟩)) := by
  intro there
  have startsThere := takes_everywhere elseTag_shift elseTag_takesOnly starts there
  obtain ⟨copy, spelling, twins, kept⟩ := content (there + byteSize piece)
  refine ⟨some ⟨there, there + byteSize piece⟩, some ⟨copy, [], false⟩,
    fun twin sameTrim elseSpan => ⟨.elseBody (sameTrim ▸ startsThere) elseSpan spelling,
      fun other stands => ?_, ?_⟩⟩
  · refine .elseBody (.of_eq prints ?_) (twins other stands.right)
    rw [BlockTags.printElse, elseSpan, stands.left.copyOr]
  · rw [Kept, Rule.rewritePhrase, Rule.rewriteInverse_else, show scope.within [] = scope from rfl,
      kept_content kept]

theorem respells_elseBlock {offset : Nat} {start inside tail : List Char} {tags : BlockTags}
    {opening : BlockOpening} {elseTrim : Trim} {elseSpan span : Option Span}
    {program : List Statement} {inverse : Option Program} (noElseTrim : tags.elseTrim = .none)
    (starts : Takes elseOpening offset start opening) (stands : Stands source offset start)
    (content : Respells (Kept rule (scope.within opening.parts.params)) source (some '{') inside
      (.content program))
    (others : Respells (Kept rule scope) source (some '{') tail
      (.inverse (opening.tags elseTrim elseSpan span) inverse)) :
    Respells (Kept rule scope) source (some '{') (start ++ inside ++ tail)
      (.inverse tags (some ⟨[.block (opening.tags elseTrim elseSpan span)
        ⟨program, opening.parts.params, false⟩ inverse], [], true⟩)) := by
  intro there
  obtain ⟨copyOpening, takesCopy, -, sameParams, opens⟩ :=
    exists_opening elseOpening_shift elseOpening_yields starts there
  obtain ⟨copy, spelling, twins, kept⟩ := content (there + byteSize start)
  obtain ⟨elseCopy, copyOthers, respells⟩ := others (there + byteSize (start ++ inside))
  obtain ⟨spellingOthers, twinsOthers, keptOthers⟩ := respells (copyOpening.tags elseTrim elseCopy
    (some ⟨there, there + byteSize (start ++ inside ++ tail)⟩)) rfl rfl
  refine ⟨none, _, fun twin sameTrim noSpan => ⟨.elseBlock (sameTrim.trans noElseTrim) noSpan
    takesCopy spelling spellingOthers, fun other standsThere => ?_, ?_⟩⟩
  · rw [← sameParams]
    exact .elseBlock ((opens stands standsThere.left.left).tags ..)
      (twins other standsThere.left.right) (twinsOthers other standsThere.right)
  · rw [← sameParams] at kept
    rw [Kept, Rule.rewritePhrase, Rule.rewriteInverse_chain, kept_content kept,
      kept_inverse keptOthers]
    rfl

end Steps

end TagMigration.Reader
