/-
Printing piece by piece. A statement prints if its tags and what it holds print, and it prints
as the texts of these in order. One lemma for each form of a node, so that no proof about
printing has to open the printer.
-/
import TagMigration.Proofs.Tree.Phrase

namespace TagMigration

variable {source : List Char} {first second third fourth : List Char}

theorem printBody_cons {statement : Statement} {rest : List Statement}
    (head : statement.print source = .ok first) (tail : printBody source rest = .ok second) :
    printBody source (statement :: rest) = .ok (first ++ second) := by
  rw [printBody, head, tail]
  rfl

theorem printBody_append {body rest : List Statement}
    (head : printBody source body = .ok first) (tail : printBody source rest = .ok second) :
    printBody source (body ++ rest) = .ok (first ++ second) := by
  induction body generalizing first with
  | nil =>
    cases head
    exact tail
  | cons statement body inductionHypothesis =>
    rw [printBody] at head
    cases here : statement.print source with
    | error span =>
      rw [here] at head
      cases head
    | ok one =>
      cases more : printBody source body with
      | error span =>
        rw [here, more] at head
        cases head
      | ok two =>
        rw [here, more] at head
        cases head
        rw [List.cons_append, printBody_cons here (inductionHypothesis more), List.append_assoc]

theorem Statement.print_block {tags : BlockTags} {program : Program} {inverse : Option Program}
    (opening : tags.printOpen source program.params false = .ok first)
    (body : printBody source program.body = .ok second)
    (others : printInverse source tags inverse = .ok third)
    (closing : tags.printClose source = .ok fourth) :
    (Statement.block tags program inverse).print source =
      .ok (first ++ second ++ third ++ fourth) := by
  obtain ⟨program, params, chained⟩ := program
  rw [Statement.print, opening, Program.print, body, others, closing]
  rfl

/-- An element with an end tag, or one that is printed with an empty one. -/
theorem Statement.print_element {tags : ElementTags} {children : List Statement}
    (nested : tags.selfClosing = false) (start : tags.printStart source = .ok first)
    (content : printBody source children = .ok second)
    (ending : tags.printEnd source = .ok third) :
    (Statement.element tags children).print source = .ok (first ++ second ++ third) := by
  rw [Statement.print, start, nested, content, ending]
  rfl

theorem Statement.print_selfClosing {tags : ElementTags} {children : List Statement}
    (alone : tags.selfClosing = true) (start : tags.printStart source = .ok first) :
    (Statement.element tags children).print source = .ok first := by
  rw [Statement.print, start, alone]
  rfl

/-- A void element that was read has no end tag. -/
theorem ElementTags.printEnd_void {tags : ElementTags} {span : Span}
    (startSpan : tags.startSpan = some span) (endSpan : tags.endSpan = none)
    (isVoid : isVoidTag tags.tag = true) : tags.printEnd source = .ok [] := by
  rw [printEnd, endSpan, startSpan, isVoid]
  rfl

/-- The start tag of an element that a pass has built. -/
theorem ElementTags.printStart_built {attributes : List Attribute}
    (printed : printAttributes source attributes = .ok first) (tag : String)
    (params : List String) (selfClosing : Bool) :
    printStart source ⟨tag, attributes, [], params, selfClosing, none, none, none⟩ =
      .ok ('<' :: tag.toList ++ first ++ [] ++ printParams params ++
        if selfClosing then " />".toList else ['>']) := by
  rw [printStart, copyOr, printed]
  rfl

/-- The end tag of an element that a pass has built. -/
theorem ElementTags.printEnd_built (tag : String) (attributes : List Attribute)
    (modifiers : List Modifier) (params : List String) (selfClosing : Bool) :
    printEnd source ⟨tag, attributes, modifiers, params, selfClosing, none, none, none⟩ =
      .ok ("</".toList ++ tag.toList ++ ['>']) := by
  rw [printEnd, copyOr]
  rfl

theorem printInverse_else {tags : BlockTags} {body : List Statement} {params : List String}
    (middle : tags.printElse source = .ok first) (content : printBody source body = .ok second) :
    printInverse source tags (some ⟨body, params, false⟩) = .ok (first ++ second) := by
  rw [printInverse, middle, content]
  rfl

/-- A chained block prints its `else` tag and has no closing tag. -/
theorem printInverse_chain {tags chained : BlockTags} {program : Program}
    {inverse : Option Program} {params : List String}
    (opening : chained.printOpen source program.params true = .ok first)
    (body : printBody source program.body = .ok second)
    (others : printInverse source chained inverse = .ok third) :
    printInverse source tags (some ⟨[.block chained program inverse], params, true⟩) =
      .ok (first ++ second ++ third) := by
  obtain ⟨program, params, chained⟩ := program
  rw [printInverse, printChain, opening, Program.print, body, others]
  exact congrArg Except.ok (List.append_nil _)

/-- A template prints as its body. -/
theorem Template.print_of_body {text identity : String} {body : List Statement}
    (prints : printBody text.toList body = .ok first) :
    (⟨identity, text, body⟩ : Template).print = .ok (String.ofList first) := by
  rw [Template.print, prints]
  rfl

end TagMigration
