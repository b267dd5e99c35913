/-
Whole phrases that are rewritten are spelled again. The induction follows the grammar: content is
spelled again first, then the statement around it, by the lemma for its kind.
-/
import TagMigration.Proofs.Reading.Respelling

namespace TagMigration.Reader

/-! ### Whole phrases -/

section Whole

variable {rule : Rule} {source : List Char} {fine : Occurrence → Prop}

theorem Respelling.replaced_notText (respelling : Respelling rule source fine) (scope : Scope)
    {statement : Statement} (notText : startsWithText [statement] = false) :
    startsWithText [(rule.replaced scope statement).1] = false := by
  cases replaces : rule.replace? scope statement with
  | none => rwa [Rule.replaced_of_none scope replaces]
  | some replacement =>
    rw [Rule.replaced_of_some scope replaces]
    exact respelling.notText replaces

theorem Respelling.rewrite_notText (respelling : Respelling rule source fine) (scope : Scope)
    {statement : Statement} (notText : startsWithText [statement] = false) :
    startsWithText [(rule.rewrite scope statement).1] = false := by
  cases statement with
  | text run => cases notText
  | element tags children =>
    rw [rule.rewrite_element]
    exact respelling.replaced_notText scope rfl
  | block tags program inverse =>
    obtain ⟨program, params, chained⟩ := program
    cases left : rule.leaves (.block tags ⟨program, params, chained⟩ inverse) with
    | true =>
      rw [rule.rewrite_left scope left]
      rfl
    | false =>
      rw [rule.rewrite_block scope left]
      exact respelling.replaced_notText scope rfl
  | _ =>
    rw [rule.rewrite_leaf scope rfl]
    exact respelling.replaced_notText scope rfl

theorem Respelling.rewriteBody_notText (respelling : Respelling rule source fine) (scope : Scope)
    {body : List Statement} (ended : startsWithText body = false) :
    startsWithText (rule.rewriteBody scope body).1 = false := by
  cases body with
  | nil =>
    rw [Rule.rewriteBody]
    rfl
  | cons statement rest =>
    have notText : startsWithText [statement] = false := by
      cases statement <;> first | rfl | exact ended
    have first := respelling.rewrite_notText scope notText
    rw [rule.rewriteBody_cons]
    cases changed : (rule.rewrite scope statement).1 with
    | text run =>
      rw [changed] at first
      cases first
    | _ => rfl

/-- A statement other than text, and what follows it. -/
theorem Respelling.cons (respelling : Respelling rule source fine) {scope : Scope}
    {next : Option Char} {piece rest : List Char} {statement : Statement} {body : List Statement}
    (notText : startsWithText [statement] = false) (nonempty : piece ≠ [])
    (first : ∃ again, Follows piece.head? again.head? ∧
      Respells (Kept rule scope) source (some '{') again
        (.content [(rule.rewrite scope statement).1]))
    (more : ∃ again, Follows rest.head? again.head? ∧ Respells (Kept rule scope) source next again
      (rule.rewritePhrase scope (.content body)).1) :
    ∃ again, Follows (piece ++ rest).head? again.head? ∧
      Respells (Kept rule scope) source next again
        (rule.rewritePhrase scope (.content (statement :: body))).1 := by
  obtain ⟨again, follows, respells⟩ := first
  obtain ⟨againMore, -, respellsMore⟩ := more
  refine ⟨again ++ againMore, follows.append nonempty _ _, ?_⟩
  rw [Rule.rewritePhrase, Rule.rewriteBody_cons]
  exact respells.cons (respelling.rewrite_notText scope notText) respellsMore

/-- A rewritten element. -/
theorem Respelling.element (respelling : Respelling rule source fine) {scope : Scope}
    {offset place : Nat} {opening inside closing again : List Char} {tag : String}
    {start : StartTag} {span endSpan : Span} {children : List Statement}
    (starts : Takes elementStart offset opening (tag, start))
    (open' : (start.selfClosing || isVoidTag tag) = false) (stands : Stands source offset opening)
    (ends : Takes (elementEnd tag) place closing ()) (standsEnd : Stands source place closing)
    (isEnd : endSpan = ⟨place, place + byteSize closing⟩)
    (content : Respells (Kept rule (scope.within start.params)) source (some '<') again
      (.content (rule.rewriteBody (scope.within start.params) children).1)) :
    ∃ again, Follows (opening ++ inside ++ closing).head? again.head? ∧
      Respells (Kept rule scope) source (some '{') again
        (.content [(rule.rewrite scope
          (.element (start.closed tag span ⟨offset, offset + byteSize opening⟩ endSpan)
            children)).1]) := by
  subst isEnd
  have nonempty : opening ≠ [] := ne_nil_of_takes starts fun _ => ⟨_, rfl⟩
  refine ⟨opening ++ again ++ closing, ?_, ?_⟩
  · exact (Follows.front nonempty inside again).append (by simp [nonempty]) closing closing
  · rw [rule.rewrite_element]
    simp only [Rule.replaced_of_none scope (respelling.only scope (.element _ _) rfl)]
    exact respells_element respelling.only starts open' stands ends standsEnd content

/-- A rewritten block, or one that the rule leaves alone. -/
theorem Respelling.block (respelling : Respelling rule source fine) {scope : Scope}
    {offset place : Nat} {start inside tail closing again againOthers : List Char}
    {opening : BlockOpening} {elseTrim closeTrim : Trim} {elseSpan : Option Span}
    {span closeSpan : Span} {program : List Statement} {inverse : Option Program}
    (starts : Takes blockStart offset start opening)
    (ends : Takes (blockEnd opening.name) place closing closeTrim)
    (standsEnd : Stands source place closing)
    (isClose : closeSpan = ⟨place, place + byteSize closing⟩)
    (alone : Spelling (some '{') offset (start ++ inside ++ tail ++ closing)
      (.content [.block (opening.closed elseTrim elseSpan closeTrim span closeSpan)
        ⟨program, opening.parts.params, false⟩ inverse]))
    (stands : Stands source offset (start ++ inside ++ tail ++ closing))
    (isFine : fine ⟨scope, .block (opening.closed elseTrim elseSpan closeTrim span closeSpan)
      ⟨program, opening.parts.params, false⟩ inverse⟩)
    (content : Respells (Kept rule (scope.within opening.parts.params)) source (some '{') again
      (.content (rule.rewriteBody (scope.within opening.parts.params) program).1))
    (others : Respells (Kept rule scope) source (some '{') againOthers
      (.inverse (opening.closed elseTrim elseSpan closeTrim span closeSpan)
        (rule.rewriteInverse scope inverse).1)) :
    ∃ again, Follows (start ++ inside ++ tail ++ closing).head? again.head? ∧
      Respells (Kept rule scope) source (some '{') again
        (.content [(rule.rewrite scope
          (.block (opening.closed elseTrim elseSpan closeTrim span closeSpan)
            ⟨program, opening.parts.params, false⟩ inverse)).1]) := by
  subst isClose
  obtain ⟨present, letters, startEq, -⟩ := blockStart_eq_ok (starts [])
  rw [List.append_nil] at startEq
  have curly (inside tail : List Char) :
      (start ++ inside ++ tail ++ closing).head? = some '{' := by
    rw [startEq]
    rfl
  cases left : rule.leaves (.block (opening.closed elseTrim elseSpan closeTrim span
      ⟨place, place + byteSize closing⟩) ⟨program, opening.parts.params, false⟩ inverse) with
  | true =>
    rw [rule.rewrite_left scope left]
    exact respelling.leaves left alone stands
  | false =>
    have respellsBlock :=
      respells_block starts stands.left.left.left ends standsEnd content others
    obtain ⟨text, follows, respells⟩ := respelling.settle respellsBlock
      (respellsContent_block content)
      (respelling.shallow (rule.isSome_rewriteInverse scope inverse) isFine)
      (fun _ => curly again againOthers)
    rw [curly] at follows ⊢
    refine ⟨text, follows, ?_⟩
    rw [rule.rewrite_block scope left]
    exact respells

/-- What a rule makes of a phrase that was read is spelled again. -/
theorem Spelling.respells (respelling : Respelling rule source fine) {next : Option Char}
    {offset : Nat} {text : List Char} {phrase : Phrase}
    (spelling : Spelling next offset text phrase) :
    Stands source offset text → ∀ scope, (∀ occurrence ∈ phrase.occurrences scope, fine occurrence) →
    ∃ again, Follows text.head? again.head? ∧
      Respells (Kept rule scope) source next again (rule.rewritePhrase scope phrase).1 := by
  induction spelling with
  | nil next offset =>
    intro _ scope _
    refine ⟨[], .inl rfl, ?_⟩
    rw [Rule.rewritePhrase, Rule.rewriteBody]
    exact fun there => ⟨[], .nil next there, fun _ _ => .nil,
      by rw [Kept, Rule.rewritePhrase, Rule.rewriteBody]⟩
  | @text next offset run rest body nonempty isRun ended more respellsMore =>
    intro stands scope isFine
    obtain ⟨again, follows, respells⟩ := respellsMore stands.right scope
      fun occurrence member => isFine occurrence (mem_occurrences_more member)
    refine ⟨run ++ again, .front nonempty rest again, ?_⟩
    rw [Rule.rewritePhrase, Rule.rewriteBody_cons, Rule.rewrite_text scope respelling.only]
    exact respells_text respelling.only _ nonempty (follows.isRun isRun)
      (respelling.rewriteBody_notText scope ended) respells
  | @single next offset piece rest statement body takes more respellsMore =>
    intro stands scope isFine
    have notText : startsWithText [statement] = false := by
      cases single_yields.property takes <;> rfl
    have nonempty : piece ≠ [] := ne_nil_of_takes takes fun _ => ⟨_, rfl⟩
    have noContent : RespellsContent rule source scope statement := by
      rintro tags program params chained inverse rfl
      cases single_yields.property takes
    refine respelling.cons notText nonempty ?_ (respellsMore stands.right scope
      fun other member => isFine other (mem_occurrences_more member))
    rw [rewrite_of_single takes]
    exact respelling.settle (respells_single takes stands.left) noContent
      (isFine _ mem_occurrences_self) (head?_of_invocation takes)
  | @element next offset opening inside closing rest tag start children body starts open' content
      ends more respellsChildren respellsMore =>
    intro stands scope isFine
    have nonempty : opening ≠ [] := ne_nil_of_takes starts fun _ => ⟨_, rfl⟩
    obtain ⟨again, -, respells⟩ := respellsChildren stands.left.left.right
      (scope.within start.params) fun other member => isFine other (mem_occurrences_inside member)
    exact respelling.cons rfl (by simp [nonempty])
      (respelling.element starts open' stands.left.left.left ends stands.left.right
        (by rw [byteSize_append (opening ++ inside), Nat.add_assoc]) respells)
      (respellsMore stands.right scope
        fun other member => isFine other (mem_occurrences_more member))
  | @block next offset start inside tail closing rest opening elseTrim closeTrim elseSpan program
      body inverse starts content others ends more respellsProgram respellsOthers respellsMore =>
    intro stands scope isFine
    have nonempty : start ≠ [] := ne_nil_of_takes starts fun _ => ⟨_, rfl⟩
    have alone := (Spelling.block starts content others ends (.nil (some '{') _)).alone
    obtain ⟨again, -, respells⟩ := respellsProgram stands.left.left.left.right
      (scope.within opening.parts.params) fun other member =>
        isFine other (mem_occurrences_inside (List.mem_append_left _ member))
    obtain ⟨againOthers, -, respellsInverse⟩ := respellsOthers stands.left.left.right scope
      fun other member => isFine other (mem_occurrences_inside (List.mem_append_right _ member))
    exact respelling.cons rfl (by simp [nonempty])
      (respelling.block starts ends stands.left.right
        (by rw [byteSize_append (start ++ inside ++ tail), Nat.add_assoc]) alone stands.left
        (isFine _ mem_occurrences_self) respells respellsInverse)
      (respellsMore stands.right scope
        fun other member => isFine other (mem_occurrences_more member))
  | noInverse elseTrim elseSpan =>
    intro stands scope isFine
    refine ⟨[], .inl rfl, ?_⟩
    rw [Rule.rewritePhrase, Rule.rewriteInverse]
    exact respells_noInverse elseTrim
  | @elseBody offset piece inside tags body starts elseSpan content respellsBody =>
    intro stands scope isFine
    rw [Phrase.occurrences, inverseOccurrences] at isFine
    obtain ⟨again, -, respells⟩ := respellsBody stands.right scope isFine
    have nonempty : piece ≠ [] := ne_nil_of_takes starts fun _ => ⟨_, rfl⟩
    refine ⟨piece ++ again, .front nonempty inside again, ?_⟩
    rw [Rule.rewritePhrase, Rule.rewriteInverse_else]
    refine respells_elseBody starts ?_ respells
    rw [BlockTags.printElse, elseSpan, stands.left.copyOr]
  | @elseBlock offset start inside tail tags opening elseTrim elseSpan program inverse noElseTrim
      noElseSpan starts content others respellsProgram respellsOthers =>
    intro stands scope isFine
    rw [Phrase.occurrences, inverseOccurrences_chain] at isFine
    obtain ⟨again, -, respells⟩ := respellsProgram stands.left.right
      (scope.within opening.parts.params)
      fun other member => isFine other (List.mem_append_left _ member)
    obtain ⟨againOthers, -, respellsOthers⟩ := respellsOthers stands.right scope
      fun other member => isFine other (List.mem_append_right _ member)
    have nonempty : start ≠ [] := ne_nil_of_takes starts fun _ => ⟨_, rfl⟩
    refine ⟨start ++ again ++ againOthers, ?_, ?_⟩
    · exact (Follows.front nonempty inside again).append (by simp [nonempty]) tail againOthers
    · rw [Rule.rewritePhrase, Rule.rewriteInverse_chain]
      exact respells_elseBlock noElseTrim starts stands.left.left respells respellsOthers

end Whole

end TagMigration.Reader
