/-
What is read from a text at two places are twins. The readers yield the same nodes at
every offset but for their spans, and each span is where its node stands. So a piece that
was read in one source and a piece that was read from the same text in another are equal
up to spans and print as that text, and their named arguments print alike as attributes.
-/
import TagMigration.Proofs.RoundTrip
import TagMigration.Proofs.Tree.Twin

namespace TagMigration

theorem Agree.of_eq {first second : Printed} {text : List Char} (left : first = .ok text)
    (right : second = .ok text) : Agree first second :=
  ⟨text, left, right⟩

/-! ### Named arguments -/

theorem Expression.span_mapSpans (change : Option Span → Option Span) (expression : Expression) :
    (expression.mapSpans change).span = change expression.span := by
  cases expression <;> rfl

theorem Expression.print_of_span {source : List Char} {expression : Expression} {span : Span}
    (stands : expression.span = some span) : expression.print source = copySpan source span := by
  cases expression <;> cases stands <;> rw [Expression.print] <;> rfl

/-- An expression that was read from a part of a text prints as that part, wherever the text
stands. -/
theorem Expression.Within.exists_print {offset : Nat} {text : List Char} {base : Expression}
    (within : (base.mapSpans (moveSpan offset)).Within offset text) :
    ∃ inner, ∀ {source place}, Stands source place text →
      (base.mapSpans (moveSpan place)).print source = .ok inner := by
  obtain ⟨front, inner, back, rfl, span⟩ := within
  rw [Expression.span_mapSpans] at span
  obtain ⟨⟨start, stop⟩, baseSpan, equal⟩ := Option.map_eq_some_iff.mp span
  obtain ⟨startEq, stopEq⟩ := Span.mk.injEq .. ▸ equal
  refine ⟨inner, fun {source place} stands => ?_⟩
  have moved : (base.mapSpans (moveSpan place)).span =
      some ⟨place + byteSize front, place + byteSize front + byteSize inner⟩ := by
    rw [Expression.span_mapSpans, baseSpan, moveSpan_some, Span.shift]
    refine congrArg some (Span.mk.injEq .. ▸ ⟨?_, ?_⟩) <;> simp only at startEq stopEq ⊢ <;> omega
  rw [Expression.print_of_span moved]
  exact stands.right.left.copySpan

/-- A named argument as an attribute prints its value in braces. -/
theorem NamedArgument.print_toAttribute {source inner : List Char} {argument : NamedArgument}
    (printed : argument.value.print source = .ok inner) :
    argument.toAttribute.print source =
      .ok (("@" ++ argument.key).toList ++
        '=' :: (openBraces ++ [] ++ (inner ++ [] ++ []) ++ [] ++ closeBraces)) := by
  have call : Call.print source ⟨argument.value, [], []⟩ = .ok (inner ++ [] ++ []) := by
    rw [Call.print, printed, printPositional, printNamed]
    rfl
  simp only [NamedArgument.toAttribute, Attribute.print, copyOr, Build.mustache, Mustache.print,
    call]
  rfl

/-- Named arguments that were read from parts of a text print alike as attributes, wherever the text
stands. -/
theorem exists_printAttributes {offset : Nat} {text : List Char} :
    ∀ base : List NamedArgument,
      (∀ argument ∈ mapNamed (moveSpan offset) base, argument.value.Within offset text) →
      ∃ printed, ∀ {source place}, Stands source place text →
        printAttributes source ((mapNamed (moveSpan place) base).map NamedArgument.toAttribute) =
          .ok printed
  | [], _ => ⟨[], fun _ => by rw [mapNamed, List.map_nil, printAttributes]⟩
  | ⟨key, value, span⟩ :: base, within => by
    rw [mapNamed] at within
    obtain ⟨inner, prints⟩ := (within _ List.mem_cons_self).exists_print
    obtain ⟨rest, printsRest⟩ := exists_printAttributes base fun argument member =>
      within argument (List.mem_cons_of_mem _ member)
    refine ⟨' ' :: (("@" ++ key).toList ++
      '=' :: (openBraces ++ [] ++ (inner ++ [] ++ []) ++ [] ++ closeBraces)) ++ rest,
      fun {source place} stands => ?_⟩
    have first := @NamedArgument.print_toAttribute _ _
      ⟨key, value.mapSpans (moveSpan place), moveSpan place span⟩ (prints stands)
    rw [mapNamed, List.map_cons, printAttributes, NamedArgument.mapSpans, first, printsRest stands]
    rfl

namespace Reader

/-! ### Statements without content -/

/-- A statement that is read alone, at another place. -/
theorem exists_single {offset : Nat} {piece : List Char} {statement : Statement}
    (takes : Takes single offset piece statement) (place : Nat) :
    ∃ copy, Takes single place piece copy ∧
      ∀ {source other}, Stands source offset piece → Stands other place piece →
        ∀ {body rest}, Twin source other (.content body) (.content rest) →
          Twin source other (.content (statement :: body)) (.content (copy :: rest)) := by
  obtain ⟨base, rfl, everywhere⟩ := Takes.relocate single_shift single_yields.takesOnly takes
  refine ⟨base.mapSpans (moveSpan place), everywhere place,
    fun {source other} stands standsThere {body rest} more => ?_⟩
  have here := single_yields.property takes
  have there := single_yields.property (everywhere place)
  have prints := Agree.of_eq (here.print stands) (there.print standsThere)
  cases base with
  | text run => cases here
  | block tags program inverse => cases here
  | comment remark => exact .plain rfl rfl rfl prints more
  | curlyComment remark => exact .plain rfl rfl rfl prints more
  | mustache tag =>
    cases here with
    | mustache isMustache =>
      cases there with
      | mustache isThere =>
        have values := isMustache.values
        simp only [Mustache.mapSpans, Call.mapSpans_named] at values
        obtain ⟨printed, attributes⟩ := exists_printAttributes tag.call.named values
        have named (change : Option Span → Option Span) :
            (tag.mapSpans change).call.toAttributes =
              (mapNamed change tag.call.named).map NamedArgument.toAttribute := by
          rw [Call.toAttributes, Mustache.mapSpans, Call.mapSpans_named]
        refine .mustache ?_ ?_ ?_ more
        · rw [Mustache.mapSpans_mapSpans, Mustache.mapSpans_mapSpans]
          rfl
        · rw [named, named]
          exact .of_eq (attributes stands) (attributes standsThere)
        · exact .of_eq (isMustache.print stands) (isThere.print standsThere)
  | element tags children =>
    have noChildren : children = [] := by
      cases children with
      | nil => rfl
      | cons => cases here
    subst noChildren
    cases here with
    | element span startSpan endSpan alone =>
      cases there with
      | element spanThere startThere endThere aloneThere =>
        refine .element ?_ ?_ (fun open' => ?_) .nil more
        · rw [ElementTags.mapSpans_mapSpans, ElementTags.mapSpans_mapSpans]
          rfl
        · refine ⟨piece, ?_, ?_⟩
          · rw [ElementTags.printStart, startSpan, stands.copyOr]
          · rw [ElementTags.printStart, startThere, standsThere.copyOr]
        · have isVoid : isVoidTag tags.tag = true := by
            rcases Bool.or_eq_true_iff.mp alone with closed | isVoid
            · rw [closed] at open'
              cases open'
            · exact isVoid
          exact .of_eq (ElementTags.printEnd_void startSpan endSpan isVoid)
            (ElementTags.printEnd_void startThere endThere isVoid)

/-! ### Opening tags -/

/-- Two opening tags of blocks that make twins of their blocks. -/
structure OpensAlike (source other : List Char) (opening copy : BlockOpening) : Prop where
  call : opening.parts.call.mapSpans eraseSpan = copy.parts.call.mapSpans eraseSpan
  trim : opening.trimBefore = copy.trimBefore ∧ opening.parts.trimAfter = copy.parts.trimAfter
  attributes : Agree (printAttributes source opening.parts.call.toAttributes)
    (printAttributes other copy.parts.call.toAttributes)
  prints : Agree (copySpan source opening.span) (copySpan other copy.span)

section Opening

variable {source other : List Char} {opening copy : BlockOpening}

theorem OpensAlike.tags (alike : OpensAlike source other opening copy) (elseTrim : Trim)
    (elseSpan elseCopy span spanCopy : Option Span) (params : List String) (chained : Bool) :
    TwinTags source other params chained (opening.tags elseTrim elseSpan span)
      (copy.tags elseTrim elseCopy spanCopy) where
  alike := by
    simp only [BlockOpening.tags, BlockTags.mapSpans, alike.call, alike.trim.1, alike.trim.2]
    rfl
  attributes := alike.attributes
  opening := alike.prints

theorem OpensAlike.closed (alike : OpensAlike source other opening copy) (elseTrim : Trim)
    (elseSpan elseCopy : Option Span) (closeTrim : Trim) (span spanCopy close closeCopy : Span)
    (params : List String) (chained : Bool) :
    TwinTags source other params chained (opening.closed elseTrim elseSpan closeTrim span close)
      (copy.closed elseTrim elseCopy closeTrim spanCopy closeCopy) where
  alike := by
    simp only [BlockOpening.closed, BlockOpening.tags, BlockTags.mapSpans, alike.call,
      alike.trim.1, alike.trim.2]
    rfl
  attributes := alike.attributes
  opening := alike.prints

/-- An opening tag of a block at another place. -/
theorem exists_opening {reader : Cursor → Except Fault (BlockOpening × Cursor)}
    (shift : ∀ distance cursor, reader (cursor.shift distance) =
      movedRead (BlockOpening.shift distance) distance (reader cursor))
    (yields : Yields reader IsOpening) {offset : Nat} {piece : List Char}
    (takes : Takes reader offset piece opening) (place : Nat) :
    ∃ copy, Takes reader place piece copy ∧ copy.name = opening.name ∧
      copy.parts.params = opening.parts.params ∧
      ∀ {source other}, Stands source offset piece → Stands other place piece →
        OpensAlike source other opening copy := by
  obtain ⟨base, rfl, everywhere⟩ := Takes.relocate shift yields.takesOnly takes
  refine ⟨base.shift place, everywhere place, rfl, rfl, fun {source other} stands standsThere => ?_⟩
  have here := yields.property takes
  have there := yields.property (everywhere place)
  have values := here.values
  simp only [BlockOpening.shift, CallParts.mapSpans, Call.mapSpans_named] at values
  obtain ⟨printed, attributes⟩ := exists_printAttributes base.parts.call.named values
  have named (distance : Nat) : (base.shift distance).parts.call.toAttributes =
      (mapNamed (moveSpan distance) base.parts.call.named).map NamedArgument.toAttribute := by
    simp only [BlockOpening.shift, CallParts.mapSpans, Call.toAttributes, Call.mapSpans_named]
  refine ⟨?_, ⟨rfl, rfl⟩, ?_, ?_⟩
  · simp only [BlockOpening.shift, CallParts.mapSpans, Call.mapSpans_mapSpans]
    rfl
  · rw [named, named]
    exact .of_eq (attributes stands) (attributes standsThere)
  · rw [here.span, there.span]
    exact .of_eq stands.copySpan standsThere.copySpan

end Opening

/-! ### Start tags -/

/-- Start tags that are alike make elements with tags that are alike. -/
theorem StartTag.alike_tags {start copy : StartTag}
    (alike : start.mapSpans eraseSpan = copy.mapSpans eraseSpan) (tag : String)
    (span startSpan endSpan spanCopy startCopy endCopy : Option Span) :
    ElementTags.mapSpans eraseSpan ⟨tag, start.attributes, start.modifiers, start.params,
        start.selfClosing, span, startSpan, endSpan⟩ =
      ElementTags.mapSpans eraseSpan ⟨tag, copy.attributes, copy.modifiers, copy.params,
        copy.selfClosing, spanCopy, startCopy, endCopy⟩ := by
  obtain ⟨attributes, modifiers, params, selfClosing⟩ := StartTag.mk.injEq .. ▸ alike
  simp only [ElementTags.mapSpans, attributes, modifiers, params, selfClosing]
  rfl

/-- A start tag of an element at another place. -/
theorem exists_elementStart {offset : Nat} {piece : List Char} {tag : String} {start : StartTag}
    (takes : Takes elementStart offset piece (tag, start)) (place : Nat) :
    ∃ copy, Takes elementStart place piece (tag, copy) ∧ copy.selfClosing = start.selfClosing ∧
      copy.params = start.params ∧
      start.mapSpans eraseSpan = copy.mapSpans eraseSpan := by
  obtain ⟨⟨name, base⟩, equal, everywhere⟩ :=
    Takes.relocate elementStart_shift elementStart_takesOnly takes
  obtain ⟨rfl, rfl⟩ := Prod.mk.injEq .. ▸ equal
  refine ⟨base.mapSpans (moveSpan place), everywhere place, rfl, rfl, ?_⟩
  rw [StartTag.mapSpans_mapSpans, StartTag.mapSpans_mapSpans]
  rfl

/-- A piece that carries no span is read alike everywhere. -/
theorem takes_everywhere {Result : Type} {reader : Cursor → Except Fault (Result × Cursor)}
    (shift : ∀ distance cursor, reader (cursor.shift distance) =
      movedRead id distance (reader cursor)) (only : TakesOnly reader) {offset : Nat}
    {piece : List Char} {value : Result} (takes : Takes reader offset piece value) (place : Nat) :
    Takes reader place piece value := by
  obtain ⟨base, rfl, everywhere⟩ :=
    @Takes.relocate Result reader (fun _ => id) shift only offset piece value takes
  exact everywhere place

end Reader

end TagMigration
