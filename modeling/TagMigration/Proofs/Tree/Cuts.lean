/-
Spans that cut a source. The printer copies a node from the source at its span, and that is the
only thing in it that can fail. So a tree is printed if every span in it is in order, in
range and on character boundaries, those of expressions, attributes and tags included. The
spans of a node are its own: those of what a block or an element holds belong to other nodes.
-/
import TagMigration.Proofs.Reading.Nodes
import TagMigration.Proofs.Tree.Print

namespace TagMigration

/-! ### Cutting a source -/

/-- There is a character boundary of the text at the offset. -/
def IsBoundary (text : List Char) (offset : Nat) : Prop :=
  ∃ front back, text = front ++ back ∧ byteSize front = offset

/-- The span is in order and in range, and both its ends are on character boundaries. -/
structure Span.Cuts (source : List Char) (span : Span) : Prop where
  inOrder : span.start ≤ span.stop
  inRange : span.stop ≤ byteSize source
  startsBetween : IsBoundary source span.start
  stopsBetween : IsBoundary source span.stop

section Cuts

variable {source : List Char}

/-- Of two beginnings of a text, the one that is not longer is a beginning of the other. -/
theorem exists_append_of_byteSize_le {front back first rest : List Char}
    (same : front ++ back = first ++ rest) (shorter : byteSize front ≤ byteSize first) :
    ∃ middle, first = front ++ middle ∧ back = middle ++ rest := by
  rcases List.append_eq_append_iff.mp same with ⟨middle, isFirst, isBack⟩ | ⟨middle, isFront, isRest⟩
  · exact ⟨middle, isFirst, isBack⟩
  · have nothing : middle = [] := by
      cases middle with
      | nil => rfl
      | cons char more =>
        have positive := Char.utf8Size_pos char
        rw [isFront, byteSize_append, byteSize_cons] at shorter
        omega
    subst nothing
    exact ⟨[], by simpa using isFront.symm, by simpa using isRest.symm⟩

/-- What a span cuts can be copied. -/
theorem Span.Cuts.exists_copy {span : Span} (cuts : span.Cuts source) :
    ∃ chars, copySpan source span = .ok chars := by
  obtain ⟨front, back, rfl, starts⟩ := cuts.startsBetween
  obtain ⟨first, rest, same, stops⟩ := cuts.stopsBetween
  obtain ⟨middle, rfl, rfl⟩ := exists_append_of_byteSize_le same
    (by rw [starts, stops]; exact cuts.inOrder)
  have stands : Stands (front ++ (middle ++ rest)) span.start middle := ⟨front, rest, rfl, starts⟩
  have isSpan : span = ⟨span.start, span.start + byteSize middle⟩ := by
    rw [byteSize_append, starts] at stops
    rw [stops]
  rw [isSpan]
  exact ⟨middle, stands.copySpan⟩

/-- A text that stands in the source is cut by its span. -/
theorem Stands.cuts {offset : Nat} {text : List Char} (stands : Stands source offset text) :
    Span.Cuts source ⟨offset, offset + byteSize text⟩ := by
  obtain ⟨front, back, rfl, rfl⟩ := stands
  refine ⟨Nat.le_add_right _ _, ?_, ⟨front, text ++ back, rfl, rfl⟩, front ++ text, back, ?_, ?_⟩
  · simp only [byteSize_append]
    omega
  · rw [List.append_assoc]
  · rw [byteSize_append]

/-- A node is printed if its span cuts the source or, without one, it can be spelled out. -/
theorem exists_copyOr {span : Option Span} {spelled : Printed}
    (cuts : ∀ found ∈ span, found.Cuts source) (built : ∃ chars, spelled = .ok chars) :
    ∃ chars, copyOr source span spelled = .ok chars := by
  cases span with
  | none => exact built
  | some span => exact (cuts span rfl).exists_copy

end Cuts

/-! ### The spans of a node -/

mutual

/-- The spans of an expression. -/
def Expression.spans : Expression → List Span
  | .path _ span => span.toList
  | .call call span => span.toList ++ call.spans
  | .literal _ span => span.toList

/-- The spans of a call. -/
def Call.spans : Call → List Span
  | ⟨callee, positional, named⟩ => callee.spans ++ positionalSpans positional ++ namedSpans named

/-- The spans of positional arguments. -/
def positionalSpans : List Expression → List Span
  | [] => []
  | argument :: rest => argument.spans ++ positionalSpans rest

/-- The spans of named arguments. -/
def namedSpans : List NamedArgument → List Span
  | [] => []
  | argument :: rest => argument.spans ++ namedSpans rest

/-- The spans of a named argument. -/
def NamedArgument.spans : NamedArgument → List Span
  | ⟨_, value, span⟩ => span.toList ++ value.spans

end

/-- The spans of an inline tag. -/
def Mustache.spans (tag : Mustache) : List Span :=
  tag.span.toList ++ tag.call.spans

/-- The spans of a part of a value. -/
def ValuePart.spans : ValuePart → List Span
  | .text run => run.span.toList
  | .mustache tag => tag.spans

/-- The spans of an attribute value. -/
def AttributeValue.spans : AttributeValue → List Span
  | .text run => run.span.toList
  | .mustache tag => tag.spans
  | .concat parts span => span.toList ++ parts.flatMap ValuePart.spans

/-- The spans of an attribute. -/
def Attribute.spans (attr : Attribute) : List Span :=
  attr.span.toList ++ attr.value.spans

/-- The spans of a modifier. -/
def Modifier.spans (modifier : Modifier) : List Span :=
  modifier.span.toList ++ modifier.call.spans

/-- The spans of the tags of a block. -/
def BlockTags.spans (tags : BlockTags) : List Span :=
  tags.call.spans ++ tags.span.toList ++ tags.openSpan.toList ++ tags.elseSpan.toList ++
    tags.closeSpan.toList

/-- The spans of the tags of an element. -/
def ElementTags.spans (tags : ElementTags) : List Span :=
  tags.attributes.flatMap Attribute.spans ++ tags.modifiers.flatMap Modifier.spans ++
    tags.span.toList ++ tags.startSpan.toList ++ tags.endSpan.toList

/-- The spans of a statement, without those of the statements it holds. -/
def Statement.ownSpans : Statement → List Span
  | .text run => run.span.toList
  | .mustache tag => tag.spans
  | .block tags _ _ => tags.spans
  | .element tags _ => tags.spans
  | .comment remark => remark.span.toList
  | .curlyComment remark => remark.span.toList

/-- All the spans of a template. -/
def Template.spans (template : Template) : List Span :=
  template.nodes.flatMap fun node => node.statement.ownSpans

/-- All the spans cut the source. -/
def AllCut (source : List Char) (spans : List Span) : Prop :=
  ∀ span ∈ spans, span.Cuts source

section Printing

variable {source : List Char}

@[simp]
theorem allCut_nil : AllCut source [] :=
  fun _ member => nomatch member

@[simp]
theorem allCut_append {first second : List Span} :
    AllCut source (first ++ second) ↔ AllCut source first ∧ AllCut source second :=
  List.forall_mem_append

theorem AllCut.optional {span : Option Span} (cuts : AllCut source span.toList) :
    ∀ found ∈ span, found.Cuts source :=
  fun found member => cuts found (Option.mem_toList.mpr member)

theorem allCut_flatMap {α : Type} {items : List α} {spans : α → List Span} :
    AllCut source (items.flatMap spans) ↔ ∀ item ∈ items, AllCut source (spans item) := by
  simp only [AllCut, List.mem_flatMap]
  exact ⟨fun cuts item member span inside => cuts span ⟨item, member, inside⟩,
    fun cuts span ⟨item, member, inside⟩ => cuts item member span inside⟩

/-! ### Printing a node -/

mutual

/-- An expression whose spans cut the source is printed. -/
theorem Expression.exists_print : ∀ expression : Expression,
    AllCut source expression.spans → ∃ chars, expression.print source = .ok chars
  | .path name span, cuts => by
    rw [Expression.spans] at cuts
    rw [Expression.print]
    exact exists_copyOr cuts.optional ⟨_, rfl⟩
  | .call call span, cuts => by
    rw [Expression.spans, allCut_append] at cuts
    obtain ⟨inside, printed⟩ := Call.exists_print call cuts.2
    rw [Expression.print, printed]
    exact exists_copyOr cuts.1.optional ⟨_, rfl⟩
  | .literal value span, cuts => by
    rw [Expression.spans] at cuts
    rw [Expression.print]
    exact exists_copyOr cuts.optional ⟨_, rfl⟩

theorem Call.exists_print : ∀ call : Call,
    AllCut source call.spans → ∃ chars, call.print source = .ok chars
  | ⟨callee, positional, named⟩, cuts => by
    rw [Call.spans, allCut_append, allCut_append] at cuts
    obtain ⟨first, printedCallee⟩ := Expression.exists_print callee cuts.1.1
    obtain ⟨second, printedPositional⟩ := exists_printPositional positional cuts.1.2
    obtain ⟨third, printedNamed⟩ := exists_printNamed named cuts.2
    rw [Call.print, printedCallee, printedPositional, printedNamed]
    exact ⟨_, rfl⟩

theorem exists_printPositional : ∀ arguments : List Expression,
    AllCut source (positionalSpans arguments) →
      ∃ chars, printPositional source arguments = .ok chars
  | [], _ => by
    rw [printPositional]
    exact ⟨_, rfl⟩
  | argument :: rest, cuts => by
    rw [positionalSpans, allCut_append] at cuts
    obtain ⟨first, printed⟩ := Expression.exists_print argument cuts.1
    obtain ⟨second, printedRest⟩ := exists_printPositional rest cuts.2
    rw [printPositional, printed, printedRest]
    exact ⟨_, rfl⟩

theorem exists_printNamed : ∀ arguments : List NamedArgument,
    AllCut source (namedSpans arguments) → ∃ chars, printNamed source arguments = .ok chars
  | [], _ => by
    rw [printNamed]
    exact ⟨_, rfl⟩
  | argument :: rest, cuts => by
    rw [namedSpans, allCut_append] at cuts
    obtain ⟨first, printed⟩ := NamedArgument.exists_print argument cuts.1
    obtain ⟨second, printedRest⟩ := exists_printNamed rest cuts.2
    rw [printNamed, printed, printedRest]
    exact ⟨_, rfl⟩

theorem NamedArgument.exists_print : ∀ argument : NamedArgument,
    AllCut source argument.spans → ∃ chars, argument.print source = .ok chars
  | ⟨key, value, span⟩, cuts => by
    rw [NamedArgument.spans, allCut_append] at cuts
    obtain ⟨inside, printed⟩ := Expression.exists_print value cuts.2
    rw [NamedArgument.print, printed]
    exact exists_copyOr cuts.1.optional ⟨_, rfl⟩

end

theorem Mustache.exists_print {tag : Mustache} (cuts : AllCut source tag.spans) :
    ∃ chars, tag.print source = .ok chars := by
  rw [Mustache.spans, allCut_append] at cuts
  obtain ⟨inside, printed⟩ := Call.exists_print tag.call cuts.2
  rw [Mustache.print, printed]
  exact exists_copyOr cuts.1.optional ⟨_, rfl⟩

theorem exists_printValueParts {parts : List ValuePart}
    (cuts : ∀ part ∈ parts, AllCut source part.spans) :
    ∃ chars, printValueParts source parts = .ok chars := by
  induction parts with
  | nil => exact ⟨_, rfl⟩
  | cons part rest inductionHypothesis =>
    obtain ⟨here, further⟩ := List.forall_mem_cons.mp cuts
    obtain ⟨second, printedRest⟩ := inductionHypothesis further
    cases part with
    | text run =>
      rw [printValueParts, printedRest]
      exact ⟨_, rfl⟩
    | mustache tag =>
      obtain ⟨first, printed⟩ := Mustache.exists_print here
      rw [printValueParts, printed, printedRest]
      exact ⟨_, rfl⟩

theorem Attribute.exists_print {attr : Attribute} (cuts : AllCut source attr.spans) :
    ∃ chars, attr.print source = .ok chars := by
  rw [Attribute.spans, allCut_append] at cuts
  refine exists_copyOr cuts.1.optional ?_
  cases value : attr.value with
  | text run => exact ⟨_, rfl⟩
  | mustache tag =>
    rw [value] at cuts
    obtain ⟨inside, printed⟩ := Mustache.exists_print cuts.2
    simp only [printed]
    exact ⟨_, rfl⟩
  | concat parts span =>
    rw [value, AttributeValue.spans, allCut_append, allCut_flatMap] at cuts
    obtain ⟨inside, printed⟩ := exists_printValueParts cuts.2.2
    simp only [printed]
    exact ⟨_, rfl⟩

theorem Modifier.exists_print {modifier : Modifier} (cuts : AllCut source modifier.spans) :
    ∃ chars, modifier.print source = .ok chars := by
  rw [Modifier.spans, allCut_append] at cuts
  obtain ⟨inside, printed⟩ := Call.exists_print modifier.call cuts.2
  rw [Modifier.print, printed]
  exact exists_copyOr cuts.1.optional ⟨_, rfl⟩

theorem exists_printAttributes_of_allCut {attributes : List Attribute}
    (cuts : ∀ attr ∈ attributes, AllCut source attr.spans) :
    ∃ chars, printAttributes source attributes = .ok chars := by
  induction attributes with
  | nil => exact ⟨_, rfl⟩
  | cons attr rest inductionHypothesis =>
    obtain ⟨here, further⟩ := List.forall_mem_cons.mp cuts
    obtain ⟨first, printed⟩ := Attribute.exists_print here
    obtain ⟨second, printedRest⟩ := inductionHypothesis further
    rw [printAttributes, printed, printedRest]
    exact ⟨_, rfl⟩

theorem exists_printModifiers {modifiers : List Modifier}
    (cuts : ∀ modifier ∈ modifiers, AllCut source modifier.spans) :
    ∃ chars, printModifiers source modifiers = .ok chars := by
  induction modifiers with
  | nil => exact ⟨_, rfl⟩
  | cons modifier rest inductionHypothesis =>
    obtain ⟨here, further⟩ := List.forall_mem_cons.mp cuts
    obtain ⟨first, printed⟩ := Modifier.exists_print here
    obtain ⟨second, printedRest⟩ := inductionHypothesis further
    rw [printModifiers, printed, printedRest]
    exact ⟨_, rfl⟩

theorem BlockTags.exists_printOpen {tags : BlockTags} (cuts : AllCut source tags.spans)
    (params : List String) (chained : Bool) :
    ∃ chars, tags.printOpen source params chained = .ok chars := by
  simp only [BlockTags.spans, allCut_append] at cuts
  obtain ⟨inside, printed⟩ := Call.exists_print tags.call cuts.1.1.1.1
  rw [printOpen, printed]
  exact exists_copyOr cuts.1.1.2.optional ⟨_, rfl⟩

theorem BlockTags.exists_printElse {tags : BlockTags} (cuts : AllCut source tags.spans) :
    ∃ chars, tags.printElse source = .ok chars := by
  simp only [BlockTags.spans, allCut_append] at cuts
  exact exists_copyOr cuts.1.2.optional ⟨_, rfl⟩

theorem Call.allCut_callee {call : Call} (cuts : AllCut source call.spans) :
    AllCut source call.callee.spans := by
  cases call
  simp only [Call.spans, allCut_append] at cuts
  exact cuts.1.1

theorem BlockTags.exists_printClose {tags : BlockTags} (cuts : AllCut source tags.spans) :
    ∃ chars, tags.printClose source = .ok chars := by
  simp only [BlockTags.spans, allCut_append] at cuts
  obtain ⟨name, printed⟩ :=
    Expression.exists_print tags.call.callee (Call.allCut_callee cuts.1.1.1.1)
  rw [printClose, printed]
  exact exists_copyOr cuts.2.optional ⟨_, rfl⟩

theorem ElementTags.exists_printStart {tags : ElementTags} (cuts : AllCut source tags.spans) :
    ∃ chars, tags.printStart source = .ok chars := by
  simp only [ElementTags.spans, allCut_append, allCut_flatMap] at cuts
  obtain ⟨first, printedAttributes⟩ := exists_printAttributes_of_allCut cuts.1.1.1.1
  obtain ⟨second, printedModifiers⟩ := exists_printModifiers cuts.1.1.1.2
  rw [printStart, printedAttributes, printedModifiers]
  exact exists_copyOr cuts.1.2.optional ⟨_, rfl⟩

theorem ElementTags.exists_printEnd {tags : ElementTags} (cuts : AllCut source tags.spans) :
    ∃ chars, tags.printEnd source = .ok chars := by
  simp only [ElementTags.spans, allCut_append] at cuts
  exact exists_copyOr cuts.2.optional ⟨_, rfl⟩

theorem Statement.exists_print_leaf {statement : Statement} (isLeaf : statement.isLeaf = true)
    (cuts : AllCut source statement.ownSpans) :
    ∃ chars, statement.print source = .ok chars := by
  cases statement with
  | text run =>
    rw [Statement.print]
    exact ⟨_, rfl⟩
  | mustache tag =>
    rw [Statement.print]
    exact Mustache.exists_print cuts
  | comment remark =>
    rw [Statement.print]
    exact exists_copyOr cuts.optional ⟨_, rfl⟩
  | curlyComment remark =>
    rw [Statement.print]
    exact exists_copyOr cuts.optional ⟨_, rfl⟩
  | block => cases isLeaf
  | element => cases isLeaf

/-! ### Printing a phrase -/

/-- The spans of the tags around an inverse. -/
def Phrase.tagSpans : Phrase → List Span
  | .content _ => []
  | .inverse tags _ => tags.spans

theorem forall_bodyNodes_cons {property : Node → Prop} {chained : Bool} {statement : Statement}
    {rest : List Statement} :
    (∀ node ∈ bodyNodes chained (statement :: rest), property node) ↔
      (property ⟨statement, chained⟩ ∧ ∀ node ∈ statement.nodes, property node) ∧
        ∀ node ∈ bodyNodes chained rest, property node := by
  rw [bodyNodes, List.forall_mem_cons, List.forall_mem_append, and_assoc]

/-- A regular phrase in which all spans cut the source is printed. -/
theorem Regular.exists_print {phrase : Phrase} (regular : Regular phrase)
    (around : AllCut source phrase.tagSpans)
    (cuts : ∀ node ∈ phrase.nodes, AllCut source node.statement.ownSpans) :
    ∃ chars, phrase.print source = .ok chars := by
  induction regular with
  | nil =>
    rw [Phrase.print, printBody]
    exact ⟨_, rfl⟩
  | leaf isLeaf more printMore =>
    obtain ⟨⟨here, -⟩, further⟩ := forall_bodyNodes_cons.mp cuts
    obtain ⟨first, printed⟩ := Statement.exists_print_leaf isLeaf here
    obtain ⟨second, printedMore⟩ := printMore allCut_nil further
    exact ⟨_, printBody_cons printed printedMore⟩
  | @element tags children body content more printChildren printMore =>
    obtain ⟨⟨here, inside⟩, further⟩ := forall_bodyNodes_cons.mp cuts
    rw [Statement.nodes] at inside
    obtain ⟨start, printedStart⟩ := ElementTags.exists_printStart here
    obtain ⟨inner, printedInner⟩ := printChildren allCut_nil inside
    obtain ⟨ending, printedEnding⟩ := ElementTags.exists_printEnd here
    obtain ⟨rest, printedMore⟩ := printMore allCut_nil further
    cases alone : tags.selfClosing with
    | true => exact ⟨_, printBody_cons (Statement.print_selfClosing alone printedStart) printedMore⟩
    | false =>
      exact ⟨_, printBody_cons (Statement.print_element alone printedStart printedInner
        printedEnding) printedMore⟩
  | @block tags program body params chained inverse content others more printProgram printOthers
      printMore =>
    obtain ⟨⟨here, inside⟩, further⟩ := forall_bodyNodes_cons.mp cuts
    rw [Statement.nodes, List.forall_mem_append] at inside
    obtain ⟨opening, printedOpening⟩ := BlockTags.exists_printOpen here params false
    obtain ⟨inner, printedInner⟩ := printProgram allCut_nil inside.1
    obtain ⟨between, printedBetween⟩ := printOthers here inside.2
    obtain ⟨closing, printedClosing⟩ := BlockTags.exists_printClose here
    obtain ⟨rest, printedMore⟩ := printMore allCut_nil further
    exact ⟨_, printBody_cons (Statement.print_block printedOpening printedInner printedBetween
      printedClosing) printedMore⟩
  | noInverse =>
    rw [Phrase.print, printInverse]
    exact ⟨_, rfl⟩
  | elseBody content printContent =>
    obtain ⟨middle, printedMiddle⟩ := BlockTags.exists_printElse around
    rw [Phrase.nodes, inverseNodes] at cuts
    obtain ⟨inner, printedInner⟩ := printContent allCut_nil cuts
    rw [Phrase.print]
    exact ⟨_, printInverse_else printedMiddle printedInner⟩
  | @elseBlock tags chained program params bound continued inverse content others printProgram
      printOthers =>
    rw [Phrase.nodes, inverseNodes, forall_bodyNodes_cons] at cuts
    obtain ⟨⟨here, inside⟩, -⟩ := cuts
    rw [Statement.nodes, List.forall_mem_append] at inside
    obtain ⟨opening, printedOpening⟩ := BlockTags.exists_printOpen here params true
    obtain ⟨inner, printedInner⟩ := printProgram allCut_nil inside.1
    obtain ⟨between, printedBetween⟩ := printOthers here inside.2
    rw [Phrase.print]
    exact ⟨_, printInverse_chain printedOpening printedInner printedBetween⟩

end Printing

end TagMigration
