/-
Printing gives back what was read. A node that was read is copied from the source at its
span, and by the grammar that span is the text that the node was read from. So a phrase
prints as its text wherever that text stands in the source, and a template that was read
prints as its source, byte for byte.
-/
import TagMigration.Proofs.Reading.ReadBack
import TagMigration.Proofs.Tree.Print

namespace TagMigration

/-! ### Texts that stand in a source -/

/-- The text stands in the source at the offset. -/
def Stands (source : List Char) (offset : Nat) (text : List Char) : Prop :=
  ∃ front back, source = front ++ (text ++ back) ∧ byteSize front = offset

section Stands

variable {source : List Char} {offset : Nat} {text first second : List Char}

theorem stands_self (source : List Char) : Stands source 0 source :=
  ⟨[], [], by simp, rfl⟩

theorem Stands.left (stands : Stands source offset (first ++ second)) :
    Stands source offset first := by
  obtain ⟨front, back, rfl, size⟩ := stands
  exact ⟨front, second ++ back, by simp, size⟩

theorem Stands.right (stands : Stands source offset (first ++ second)) :
    Stands source (offset + byteSize first) second := by
  obtain ⟨front, back, rfl, size⟩ := stands
  exact ⟨front ++ first, back, by simp, by rw [byteSize_append, size]⟩

/-- A text is the slice at its span. -/
theorem Stands.slice? (stands : Stands source offset text) :
    slice? source ⟨offset, offset + byteSize text⟩ = some text := by
  obtain ⟨front, back, rfl, rfl⟩ := stands
  rw [← List.append_assoc, slice?_append]

theorem Stands.copySpan (stands : Stands source offset text) :
    copySpan source ⟨offset, offset + byteSize text⟩ = .ok text := by
  rw [TagMigration.copySpan, stands.slice?]

theorem Stands.copyOr (stands : Stands source offset text) (spelled : Printed) :
    copyOr source (some ⟨offset, offset + byteSize text⟩) spelled = .ok text :=
  stands.copySpan

end Stands

/-! ### Nodes and phrases -/

namespace Reader

variable {source : List Char} {offset : Nat} {text : List Char}

theorem IsMustache.print {tag : Mustache} (isMustache : IsMustache offset text tag)
    (stands : Stands source offset text) : tag.print source = .ok text := by
  rw [Mustache.print, isMustache.span, stands.copyOr]

theorem IsSingle.print {statement : Statement} (isSingle : IsSingle offset text statement)
    (stands : Stands source offset text) : statement.print source = .ok text := by
  cases isSingle with
  | mustache isMustache =>
    rw [Statement.print, isMustache.print stands]
  | curlyComment span =>
    rw [Statement.print, CurlyComment.print, span, stands.copyOr]
  | comment span =>
    rw [Statement.print, Comment.print, span, stands.copyOr]
  | @element tags span startSpan endSpan alone =>
    have start : tags.printStart source = .ok text := by
      rw [ElementTags.printStart, startSpan, stands.copyOr]
    cases selfClosing : tags.selfClosing with
    | true => exact Statement.print_selfClosing selfClosing start
    | false =>
      rw [selfClosing, Bool.false_or] at alone
      have noEnd : tags.printEnd source = .ok [] :=
        ElementTags.printEnd_void startSpan endSpan alone
      have prints := Statement.print_element selfClosing start (printBody.eq_1 source) noEnd
      rwa [List.append_nil, List.append_nil] at prints

theorem IsOpening.printOpen {opening : BlockOpening} (isOpening : IsOpening offset text opening)
    (stands : Stands source offset text) {tags : BlockTags}
    (openSpan : tags.openSpan = some opening.span) (params : List String) (chained : Bool) :
    tags.printOpen source params chained = .ok text := by
  rw [BlockTags.printOpen, openSpan, isOpening.span, stands.copyOr]

/-- A phrase prints as the text that it was read from. -/
theorem Spelling.print {next : Option Char} {phrase : Phrase}
    (spelling : Spelling next offset text phrase) (stands : Stands source offset text) :
    phrase.print source = .ok text := by
  induction spelling with
  | nil => exact printBody.eq_1 source
  | @text next offset run rest body nonempty isRun ended more inductionHypothesis =>
    refine printBody_cons ?_ (inductionHypothesis stands.right)
    rw [Statement.print, String.toList_ofList]
  | single takes more inductionHypothesis =>
    exact printBody_cons ((single_yields.property takes).print stands.left)
      (inductionHypothesis stands.right)
  | @element next offset opening inside closing rest tag start children body starts open' content
      ends more printChildren printMore =>
    refine printBody_cons (Statement.print_element ?_ ?_ (printChildren stands.left.left.right) ?_)
      (printMore stands.right)
    · exact (Bool.or_eq_false_iff.mp open').1
    · exact stands.left.left.left.copyOr _
    · rw [byteSize_append (opening ++ inside), ← Nat.add_assoc]
      exact stands.left.right.copyOr _
  | @block next offset start inside tail closing rest opening elseTrim closeTrim elseSpan program
      body inverse starts content others ends more printProgram printOthers printMore =>
    have isOpening := blockStart_yields.property starts
    refine printBody_cons (Statement.print_block ?_ (printProgram stands.left.left.left.right)
      (printOthers stands.left.left.right) ?_) (printMore stands.right)
    · exact isOpening.printOpen stands.left.left.left.left rfl _ _
    · rw [byteSize_append (start ++ inside ++ tail), ← Nat.add_assoc]
      exact stands.left.right.copyOr _
  | @noInverse offset tags elseTrim elseSpan => exact printInverse.eq_1 source tags
  | elseBody starts elseSpan content inductionHypothesis =>
    rw [Phrase.print]
    refine printInverse_else ?_ (inductionHypothesis stands.right)
    rw [BlockTags.printElse, elseSpan, stands.left.copyOr]
  | @elseBlock offset start inside tail tags opening elseTrim elseSpan program inverse noElseTrim
      noElseSpan starts content others printProgram printOthers =>
    have isOpening := elseOpening_yields.property starts
    rw [Phrase.print]
    exact printInverse_chain (isOpening.printOpen stands.left.left rfl _ _)
      (printProgram stands.left.right) (printOthers stands.right)

end Reader

/-! ### Templates -/

/-- A spelled template prints as its source. -/
theorem Template.print_of_spelling {source : String} (identity : String) {body : List Statement}
    (spelling : Reader.Spelling none 0 source.toList (.content body)) :
    (⟨identity, source, body⟩ : Template).print = .ok source := by
  have prints := spelling.print (stands_self source.toList)
  exact (Template.print_of_body prints).trans (congrArg Except.ok String.ofList_toList)

/-- Reading and printing is the identity: a template that was read prints as its source. -/
theorem print_of_read (source identity : String) (template : Template)
    (read : Template.read source identity = .ok template) : template.print = .ok source := by
  obtain ⟨body, rfl, spelling⟩ := Template.read_eq_ok.mp read
  exact Template.print_of_spelling identity spelling

/-- An element around a block with an escaped tag, a chained `else` and a `~` marker. -/
def nestedSource : String :=
  "<p>é\x7b\x7b#x as |y|\x7d\x7d\\\x7b\x7by\x7d\x7d\x7b\x7belse if z\x7d\x7d<br>\x7b\x7b~/x\x7d\x7d</p>"

theorem print_of_read_nestedSource : ∃ template,
    Template.read nestedSource "a.hbs" = .ok template ∧ template.print = .ok nestedSource := by
  have succeeds : (Template.read nestedSource "a.hbs").toBool = true := by decide +kernel
  cases read : Template.read nestedSource "a.hbs" with
  | error fault =>
    rw [read] at succeeds
    cases succeeds
  | ok template => exact ⟨template, rfl, print_of_read _ _ template read⟩

end TagMigration
