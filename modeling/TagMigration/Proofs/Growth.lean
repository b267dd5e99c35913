/-
What passes do to the length of a text. Instrumenting only puts text in and stripping only takes text
out, and either does so once at least for each change that it counts. So the number of changes tells
whether a text has changed at all: the tree is rebuilt, but every statement that stays prints as it
did, however deep it stands and whatever has become of the statements around it.
-/
import TagMigration.Proofs.Instrumented

namespace TagMigration

/-! ### Texts that have grown -/

/-- A text has grown by a number of changes: all that was there still is, in order, each change has
added a byte at least, and without changes it is the same. -/
structure Grown (changes : Nat) (short long : List Char) : Prop where
  same : changes = 0 → long = short
  kept : short.Sublist long
  longer : byteSize short + changes ≤ byteSize long

section Grown

variable {changes more : Nat} {short long other others : List Char}

theorem grown_refl (text : List Char) : Grown 0 text text :=
  ⟨fun _ => rfl, .refl text, Nat.le_refl _⟩

theorem Grown.append (first : Grown changes short long) (second : Grown more other others) :
    Grown (changes + more) (short ++ other) (long ++ others) where
  same none := by
    obtain ⟨noFirst, noSecond⟩ := Nat.add_eq_zero_iff.mp none
    rw [first.same noFirst, second.same noSecond]
  kept := first.kept.append second.kept
  longer := by
    have byFirst := first.longer
    have bySecond := second.longer
    rw [byteSize_append, byteSize_append]
    omega

/-- One change more, which has put text around what was there. -/
theorem Grown.wrap (grown : Grown changes short long) {front : List Char} (nonempty : front ≠ [])
    (back : List Char) : Grown (changes + 1) short (front ++ (long ++ back)) where
  same unchanged := by cases unchanged
  kept := grown.kept.trans
    ((List.sublist_append_left long back).trans (List.sublist_append_right front _))
  longer := by
    have byChanges := grown.longer
    have byFront := le_byteSize nonempty
    rw [byteSize_append, byteSize_append]
    omega

theorem Grown.eq_iff (grown : Grown changes short long) : changes = 0 ↔ long = short := by
  refine ⟨grown.same, fun same => ?_⟩
  have longer := grown.longer
  rw [same] at longer
  omega

theorem Grown.byteSize_lt (grown : Grown changes short long) (changed : 0 < changes) :
    byteSize short < byteSize long := by
  have longer := grown.longer
  omega

end Grown

/-! ### Texts that change piece by piece -/

/-- A relation between a text and what it becomes by a number of changes, which the whole is in if its
pieces are. -/
structure Piecewise (becomes : Nat → List Char → List Char → Prop) : Prop where
  refl : ∀ text, becomes 0 text text
  append : ∀ {changes more : Nat} {text out rest others : List Char}, becomes changes text out →
    becomes more rest others → becomes (changes + more) (text ++ rest) (out ++ others)

/-- What is printed is what the text becomes by a number of changes. -/
def PrintsTo (becomes : Nat → List Char → List Char → Prop) (text : List Char) (printed : Printed)
    (changes : Nat) : Prop :=
  ∃ out, printed = .ok out ∧ becomes changes text out

section Piecewise

variable {becomes : Nat → List Char → List Char → Prop} (pieces : Piecewise becomes)
  {source first second inside tail opening closing : List Char} {changes more : Nat}
  {tags : BlockTags} {body : List Statement} {params : List String} {inverse : Option Program}

include pieces

theorem Piecewise.here (text : List Char) : PrintsTo becomes text (.ok text) 0 :=
  ⟨text, rfl, pieces.refl text⟩

theorem Piecewise.cons {statement : Statement}
    (head : PrintsTo becomes first (statement.print source) changes)
    (rest : PrintsTo becomes second (printBody source body) more) :
    PrintsTo becomes (first ++ second) (printBody source (statement :: body)) (changes + more) := by
  obtain ⟨one, printsOne, becomesOne⟩ := head
  obtain ⟨two, printsTwo, becomesTwo⟩ := rest
  exact ⟨one ++ two, printBody_cons printsOne printsTwo, pieces.append becomesOne becomesTwo⟩

/-- What stands around a text stays. -/
theorem Piecewise.between {text out : List Char} (related : becomes changes text out)
    (front back : List Char) : becomes changes (front ++ text ++ back) (front ++ out ++ back) := by
  have whole := pieces.append (pieces.append (pieces.refl front) related) (pieces.refl back)
  rwa [Nat.zero_add, Nat.add_zero] at whole

theorem Piecewise.element {tags : ElementTags} (nested : tags.selfClosing = false)
    (opens : tags.printStart source = .ok opening) (closes : tags.printEnd source = .ok closing)
    (content : PrintsTo becomes inside (printBody source body) changes) :
    PrintsTo becomes (opening ++ inside ++ closing) ((Statement.element tags body).print source)
      changes := by
  obtain ⟨inner, prints, related⟩ := content
  exact ⟨_, Statement.print_element nested opens prints closes, pieces.between related _ _⟩

theorem Piecewise.block {chained : Bool} (opens : tags.printOpen source params false = .ok opening)
    (closes : tags.printClose source = .ok closing)
    (content : PrintsTo becomes inside (printBody source body) changes)
    (others : PrintsTo becomes tail (printInverse source tags inverse) more) :
    PrintsTo becomes (opening ++ inside ++ tail ++ closing)
      ((Statement.block tags ⟨body, params, chained⟩ inverse).print source) (changes + more) := by
  obtain ⟨inner, printsInner, relatedInner⟩ := content
  obtain ⟨behind, printsBehind, relatedBehind⟩ := others
  refine ⟨_, Statement.print_block opens printsInner printsBehind closes, ?_⟩
  have related := pieces.between (pieces.append relatedInner relatedBehind) opening closing
  rwa [← List.append_assoc, ← List.append_assoc] at related

theorem Piecewise.elseBody (middle : tags.printElse source = .ok opening)
    (content : PrintsTo becomes inside (printBody source body) changes) :
    PrintsTo becomes (opening ++ inside) (printInverse source tags (some ⟨body, params, false⟩))
      changes := by
  obtain ⟨inner, prints, related⟩ := content
  refine ⟨_, printInverse_else middle prints, ?_⟩
  have whole := pieces.append (pieces.refl opening) related
  rwa [Nat.zero_add] at whole

theorem Piecewise.elseBlock {outer : BlockTags} {chained : Bool} {others : List String}
    (opens : tags.printOpen source params true = .ok opening)
    (content : PrintsTo becomes inside (printBody source body) changes)
    (behind : PrintsTo becomes tail (printInverse source tags inverse) more) :
    PrintsTo becomes (opening ++ inside ++ tail) (printInverse source outer
      (some ⟨[.block tags ⟨body, params, chained⟩ inverse], others, true⟩)) (changes + more) := by
  obtain ⟨inner, printsInner, relatedInner⟩ := content
  obtain ⟨last, printsLast, relatedLast⟩ := behind
  refine ⟨_, printInverse_chain opens printsInner printsLast, ?_⟩
  have whole := pieces.append (pieces.append (pieces.refl opening) relatedInner) relatedLast
  rwa [Nat.zero_add] at whole

end Piecewise

/-- The text is printed with some more put in, by a number of changes. -/
def PutsIn (text : List Char) (printed : Printed) (changes : Nat) : Prop :=
  PrintsTo Grown text printed changes

/-- The text is printed with some of it taken out, by a number of changes. -/
def TakesOut (text : List Char) (printed : Printed) (changes : Nat) : Prop :=
  PrintsTo (fun changes text out => Grown changes out text) text printed changes

theorem piecewise_grown : Piecewise Grown :=
  ⟨grown_refl, Grown.append⟩

theorem piecewise_shrunk : Piecewise fun changes text out => Grown changes out text :=
  ⟨grown_refl, Grown.append⟩

namespace Reader

variable {source : List Char}

/-! ### Instrumenting -/

section Instrument

variable (identity : String) (scope : Scope)

/-- A conditional is put around an ambiguous invocation, and every other statement stays. -/
theorem putsIn_replaced {statement : Statement} {text : List Char} {changes : Nat}
    (printed : PutsIn text (statement.print source) changes) :
    PutsIn text (((Probe.rule identity).replaced scope statement).1.print source)
      (changes + ((Probe.rule identity).replaced scope statement).2) := by
  obtain ⟨out, prints, grown⟩ := printed
  cases replaces : (Probe.rule identity).replace? scope statement with
  | none =>
    rw [Rule.replaced_of_none scope replaces]
    exact ⟨out, prints, grown⟩
  | some replacement =>
    rw [Rule.replaced_of_some scope replaces]
    obtain ⟨name, -, rfl⟩ := Option.map_eq_some_iff.mp replaces
    obtain ⟨between, closing, whole⟩ := exists_print_conditional prints name identity
    exact ⟨_, whole, grown.wrap (List.cons_ne_nil _ _) _⟩

/-- A block that stands in the source as a conditional is left alone. In any other one text is put into
its program, into its inverse, and around it. -/
theorem putsIn_block {tags : BlockTags} {program : List Statement} {params : List String}
    {chained : Bool} {inverse : Option Program} {start inside tail closing : List Char}
    (opens : tags.printOpen source params false = .ok start)
    (closes : tags.printClose source = .ok closing)
    (printsInside : printBody source program = .ok inside)
    (printsTail : printInverse source tags inverse = .ok tail)
    (content : PutsIn inside
      (((Probe.rule identity).rewritePhrase (scope.within params) (.content program)).1.print source)
      ((Probe.rule identity).rewritePhrase (scope.within params) (.content program)).2)
    (others : PutsIn tail
      (((Probe.rule identity).rewritePhrase scope (.inverse tags inverse)).1.print source)
      ((Probe.rule identity).rewritePhrase scope (.inverse tags inverse)).2) :
    PutsIn (start ++ inside ++ tail ++ closing)
      (((Probe.rule identity).rewrite scope (.block tags ⟨program, params, chained⟩ inverse)).1.print
        source)
      ((Probe.rule identity).rewrite scope (.block tags ⟨program, params, chained⟩ inverse)).2 := by
  cases left : (Probe.rule identity).leaves (.block tags ⟨program, params, chained⟩ inverse) with
  | true =>
    rw [Rule.rewrite_left _ _ left]
    exact ⟨_, Statement.print_block opens printsInside printsTail closes, grown_refl _⟩
  | false =>
    rw [Rule.rewrite_block _ _ left]
    exact putsIn_replaced identity scope (piecewise_grown.block opens closes content others)

theorem putsIn_cons {statement : Statement} {body : List Statement} {first second : List Char}
    (head : PutsIn first (((Probe.rule identity).rewrite scope statement).1.print source)
      ((Probe.rule identity).rewrite scope statement).2)
    (rest : PutsIn second
      (((Probe.rule identity).rewritePhrase scope (.content body)).1.print source)
      ((Probe.rule identity).rewritePhrase scope (.content body)).2) :
    PutsIn (first ++ second)
      (((Probe.rule identity).rewritePhrase scope (.content (statement :: body))).1.print source)
      ((Probe.rule identity).rewritePhrase scope (.content (statement :: body))).2 :=
  piecewise_grown.cons head rest

end Instrument

/-- Instrumenting puts text into what a phrase was read from. -/
theorem Spelling.putsIn {next : Option Char} {offset : Nat} {text : List Char} {phrase : Phrase}
    (spelling : Spelling next offset text phrase) (stands : Stands source offset text)
    (identity : String) : ∀ scope,
    PutsIn text (((Probe.rule identity).rewritePhrase scope phrase).1.print source)
      ((Probe.rule identity).rewritePhrase scope phrase).2 := by
  have only := Probe.rule_onInvocations identity
  induction spelling with
  | nil => exact fun scope => piecewise_grown.here []
  | @text next offset run rest body nonempty isRun ended more inductionHypothesis =>
    intro scope
    refine putsIn_cons identity scope ?_ (inductionHypothesis stands.right scope)
    rw [Rule.rewrite_text scope only, Statement.print, String.toList_ofList]
    exact piecewise_grown.here run
  | single takes more inductionHypothesis =>
    intro scope
    refine putsIn_cons identity scope ?_ (inductionHypothesis stands.right scope)
    have printed := (single_yields.property takes).print stands.left
    have replaced := putsIn_replaced identity scope ⟨_, printed, grown_refl _⟩
    rwa [rewrite_of_single takes, ← Nat.zero_add (Rule.replaced _ _ _).2]
  | @element next offset opening inside closing rest tag start children body starts open' content
      ends more putsInChildren putsInMore =>
    intro scope
    refine putsIn_cons identity scope ?_ (putsInMore stands.right scope)
    rw [Rule.rewrite_element]
    refine putsIn_replaced identity scope (piecewise_grown.element ?_ ?_ ?_
      (putsInChildren stands.left.left.right (scope.within start.params)))
    · exact (Bool.or_eq_false_iff.mp open').1
    · exact stands.left.left.left.copyOr _
    · rw [byteSize_append (opening ++ inside), ← Nat.add_assoc]
      exact stands.left.right.copyOr _
  | @block next offset start inside tail closing rest opening elseTrim closeTrim elseSpan program
      body inverse starts content others ends more putsInProgram putsInOthers putsInMore =>
    intro scope
    have isOpening := blockStart_yields.property starts
    refine putsIn_cons identity scope (putsIn_block identity scope ?_ ?_
      (content.print stands.left.left.left.right) (others.print stands.left.left.right)
      (putsInProgram stands.left.left.left.right _) (putsInOthers stands.left.left.right scope))
      (putsInMore stands.right scope)
    · exact isOpening.printOpen stands.left.left.left.left rfl _ _
    · rw [byteSize_append (start ++ inside ++ tail), ← Nat.add_assoc]
      exact stands.left.right.copyOr _
  | noInverse => exact fun scope => piecewise_grown.here []
  | @elseBody offset piece inside tags body starts elseSpan content inductionHypothesis =>
    intro scope
    have middle : tags.printElse source = .ok piece := by
      rw [BlockTags.printElse, elseSpan, stands.left.copyOr]
    rw [Rule.rewritePhrase, Rule.rewriteInverse_else, Phrase.print]
    exact piecewise_grown.elseBody middle (inductionHypothesis stands.right (scope.within []))
  | @elseBlock offset start inside tail tags opening elseTrim elseSpan program inverse noElseTrim
      noElseSpan starts content others putsInProgram putsInOthers =>
    intro scope
    have isOpening := elseOpening_yields.property starts
    rw [Rule.rewritePhrase, Rule.rewriteInverse_chain, Phrase.print]
    exact piecewise_grown.elseBlock (isOpening.printOpen stands.left.left rfl _ _)
      (putsInProgram stands.left.right (scope.within opening.parts.params))
      (putsInOthers stands.right scope)

end Reader

/-! ### Stripping -/

/-- The number of conditionals that stripping takes out of a phrase. -/
def Phrase.probes : Phrase → Nat
  | .content body => (Probe.stripBody body).2
  | .inverse _ others => (Probe.stripInverse others).2

namespace Reader

variable {source : List Char}

theorem stripBody_single {offset : Nat} {piece : List Char} {statement : Statement}
    (takes : Takes Reader.single offset piece statement) (rest : List Statement) :
    Probe.stripBody (statement :: rest) =
      (statement :: (Probe.stripBody rest).1, (Probe.stripBody rest).2) := by
  cases single_yields.property takes with
  | element => rw [Probe.stripBody_element, Probe.stripBody_nil, Nat.zero_add]
  | _ => exact Probe.stripBody_leaf rfl rest

/-- Stripping takes text out of what a phrase was read from. -/
theorem Spelling.takesOut {next : Option Char} {offset : Nat} {text : List Char} {phrase : Phrase}
    (spelling : Spelling next offset text phrase) (stands : Stands source offset text) :
    TakesOut text (phrase.strip.print source) phrase.probes := by
  induction spelling with
  | nil =>
    rw [Phrase.strip, Phrase.probes, Probe.stripBody_nil]
    exact piecewise_shrunk.here []
  | @text next offset run rest body nonempty isRun ended more inductionHypothesis =>
    rw [Phrase.strip, Phrase.probes, Probe.stripBody_leaf rfl, ← Nat.zero_add (Prod.snd _)]
    refine piecewise_shrunk.cons ?_ (inductionHypothesis stands.right)
    rw [Statement.print, String.toList_ofList]
    exact piecewise_shrunk.here run
  | single takes more inductionHypothesis =>
    rw [Phrase.strip, Phrase.probes, stripBody_single takes, ← Nat.zero_add (Prod.snd _)]
    refine piecewise_shrunk.cons ?_ (inductionHypothesis stands.right)
    rw [(single_yields.property takes).print stands.left]
    exact piecewise_shrunk.here _
  | @element next offset opening inside closing rest tag start children body starts open' content
      ends more takesChildren takesMore =>
    rw [Phrase.strip, Phrase.probes, Probe.stripBody_element]
    refine piecewise_shrunk.cons (piecewise_shrunk.element ?_ ?_ ?_
      (takesChildren stands.left.left.right)) (takesMore stands.right)
    · exact (Bool.or_eq_false_iff.mp open').1
    · exact stands.left.left.left.copyOr _
    · rw [byteSize_append (opening ++ inside), ← Nat.add_assoc]
      exact stands.left.right.copyOr _
  | @block next offset start inside tail closing rest opening elseTrim closeTrim elseSpan program
      body inverse starts content others ends more takesProgram takesOthers takesMore =>
    have isOpening := blockStart_yields.property starts
    have inProgram := takesProgram stands.left.left.left.right
    cases found : Probe.isWrapper (opening.closed elseTrim elseSpan closeTrim
        ⟨offset, offset + byteSize (start ++ inside ++ tail ++ closing)⟩
        ⟨offset + byteSize (start ++ inside ++ tail),
          offset + byteSize (start ++ inside ++ tail ++ closing)⟩)
        ⟨program, opening.parts.params, false⟩ inverse with
    | true =>
      obtain ⟨inner, printsInner, grownInner⟩ := inProgram
      obtain ⟨after, printsAfter, grownAfter⟩ := takesMore stands.right
      rw [Phrase.strip, Phrase.probes, Probe.stripBody_wrapper found, Nat.add_right_comm]
      refine ⟨inner ++ after, printBody_append printsInner printsAfter, ?_⟩
      have nonempty : start ≠ [] := ne_nil_of_takes starts fun _ => ⟨_, rfl⟩
      have grown := (grownInner.wrap nonempty (tail ++ closing)).append grownAfter
      rwa [← List.append_assoc, ← List.append_assoc] at grown
    | false =>
      rw [Phrase.strip, Phrase.probes, Probe.stripBody_block found, Nat.add_right_comm]
      refine piecewise_shrunk.cons (piecewise_shrunk.block ?_ ?_ inProgram
        (takesOthers stands.left.left.right)) (takesMore stands.right)
      · exact isOpening.printOpen stands.left.left.left.left rfl _ _
      · rw [byteSize_append (start ++ inside ++ tail), ← Nat.add_assoc]
        exact stands.left.right.copyOr _
  | noInverse =>
    rw [Phrase.strip, Phrase.probes, Probe.stripInverse]
    exact piecewise_shrunk.here []
  | @elseBody offset piece inside tags body starts elseSpan content inductionHypothesis =>
    have middle : tags.printElse source = .ok piece := by
      rw [BlockTags.printElse, elseSpan, stands.left.copyOr]
    rw [Phrase.strip, Phrase.probes, Probe.stripInverse_else, Phrase.print]
    exact piecewise_shrunk.elseBody middle (inductionHypothesis stands.right)
  | @elseBlock offset start inside tail tags opening elseTrim elseSpan program inverse noElseTrim
      noElseSpan starts content others takesProgram takesOthers =>
    have isOpening := elseOpening_yields.property starts
    rw [Phrase.strip, Phrase.probes, Probe.stripInverse_chain, Phrase.print]
    exact piecewise_shrunk.elseBlock (isOpening.printOpen stands.left.left rfl _ _)
      (takesProgram stands.left.right) (takesOthers stands.right)

end Reader

/-! ### Templates -/

namespace Template

variable {source identity : String} {template : Template}

/-- An instrumented template prints. Its text is the source if no change is counted; otherwise it
holds the source and is longer. -/
theorem exists_print_instrument (read : Template.read source identity = .ok template) :
    ∃ text, template.instrument.template.print = .ok text ∧
      (template.instrument.changes = 0 ↔ text = source) ∧
      (0 < template.instrument.changes → byteSize source.toList < byteSize text.toList) ∧
      source.toList.Sublist text.toList := by
  obtain ⟨body, rfl, spelling⟩ := read_eq_ok.mp read
  obtain ⟨out, prints, grown⟩ := spelling.putsIn (stands_self _) identity .empty
  rw [instrument, Rule.run_of_spelling (Probe.rule_onInvocations identity) spelling]
  refine ⟨String.ofList out, print_of_body prints, ?_⟩
  rw [← String.toList_inj, String.toList_ofList]
  exact ⟨grown.eq_iff, grown.byteSize_lt, grown.kept⟩

/-- A stripped template prints. Its text is the source if no change is counted; otherwise the source
holds it and it is shorter. -/
theorem exists_print_strip (read : Template.read source identity = .ok template) :
    ∃ text, template.strip.template.print = .ok text ∧
      (template.strip.changes = 0 ↔ text = source) ∧
      (0 < template.strip.changes → byteSize text.toList < byteSize source.toList) ∧
      text.toList.Sublist source.toList := by
  obtain ⟨body, rfl, spelling⟩ := read_eq_ok.mp read
  obtain ⟨out, prints, grown⟩ := spelling.takesOut (stands_self _)
  refine ⟨String.ofList out, print_of_body prints, ?_⟩
  rw [← String.toList_inj, String.toList_ofList]
  exact ⟨grown.eq_iff.trans eq_comm, grown.byteSize_lt, grown.kept⟩

end Template

end TagMigration
