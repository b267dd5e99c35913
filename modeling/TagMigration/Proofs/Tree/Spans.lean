/-
Trees up to their spans. A template that is read at another place of a text has the
same tree with other spans, and a tree that a pass built has none. Both comparisons are
one operation: change every span of a tree. Moving adds a distance to each span, erasing
drops them all. Two trees are equal up to spans if erasing makes them equal.
-/
import TagMigration.Reader.Content

namespace TagMigration

/-! ### Moving and erasing one span -/

/-- The span `distance` bytes further on. -/
def Span.shift (distance : Nat) (span : Span) : Span :=
  ⟨span.start + distance, span.stop + distance⟩

/-- A span, if there is one, `distance` bytes further on. -/
def moveSpan (distance : Nat) (span : Option Span) : Option Span :=
  span.map (Span.shift distance)

/-- No span in place of any. -/
def eraseSpan (_ : Option Span) : Option Span :=
  none

@[simp]
theorem moveSpan_some (distance : Nat) (span : Span) :
    moveSpan distance (some span) = some (span.shift distance) := rfl

/-- Where an expression was read from. -/
def Expression.span : Expression → Option Span
  | .path _ span => span
  | .call _ span => span
  | .literal _ span => span

/-! ### Changing every span of a tree -/

mutual

/-- An expression with every span changed. -/
def Expression.mapSpans (change : Option Span → Option Span) : Expression → Expression
  | .path name span => .path name (change span)
  | .call call span => .call (call.mapSpans change) (change span)
  | .literal value span => .literal value (change span)

/-- A call with every span changed. -/
def Call.mapSpans (change : Option Span → Option Span) : Call → Call
  | ⟨callee, positional, named⟩ =>
    ⟨callee.mapSpans change, mapPositional change positional, mapNamed change named⟩

/-- Positional arguments with every span changed. -/
def mapPositional (change : Option Span → Option Span) : List Expression → List Expression
  | [] => []
  | argument :: rest => argument.mapSpans change :: mapPositional change rest

/-- Named arguments with every span changed. -/
def mapNamed (change : Option Span → Option Span) : List NamedArgument → List NamedArgument
  | [] => []
  | argument :: rest => argument.mapSpans change :: mapNamed change rest

/-- A named argument with every span changed. -/
def NamedArgument.mapSpans (change : Option Span → Option Span) : NamedArgument → NamedArgument
  | ⟨key, value, span⟩ => ⟨key, value.mapSpans change, change span⟩

end

/-- A run of text with its span changed. -/
def TextRun.mapSpans (change : Option Span → Option Span) (run : TextRun) : TextRun :=
  ⟨run.chars, change run.span⟩

/-- A markup comment with its span changed. -/
def Comment.mapSpans (change : Option Span → Option Span) (remark : Comment) : Comment :=
  ⟨remark.value, change remark.span⟩

/-- A curly comment with its span changed. -/
def CurlyComment.mapSpans (change : Option Span → Option Span) (remark : CurlyComment) :
    CurlyComment :=
  ⟨remark.value, remark.long, change remark.span⟩

/-- An inline tag with every span changed. -/
def Mustache.mapSpans (change : Option Span → Option Span) (tag : Mustache) : Mustache :=
  ⟨tag.call.mapSpans change, tag.trusting, tag.trim, change tag.span⟩

/-- A part of a value with every span changed. -/
def ValuePart.mapSpans (change : Option Span → Option Span) : ValuePart → ValuePart
  | .text run => .text (run.mapSpans change)
  | .mustache tag => .mustache (tag.mapSpans change)

/-- An attribute value with every span changed. -/
def AttributeValue.mapSpans (change : Option Span → Option Span) :
    AttributeValue → AttributeValue
  | .text run => .text (run.mapSpans change)
  | .mustache tag => .mustache (tag.mapSpans change)
  | .concat parts span => .concat (parts.map (ValuePart.mapSpans change)) (change span)

/-- An attribute with every span changed. -/
def Attribute.mapSpans (change : Option Span → Option Span) (attr : Attribute) : Attribute :=
  ⟨attr.name, attr.value.mapSpans change, change attr.span⟩

/-- A modifier with every span changed. -/
def Modifier.mapSpans (change : Option Span → Option Span) (modifier : Modifier) : Modifier :=
  ⟨modifier.call.mapSpans change, change modifier.span⟩

/-- The tags of a block with every span changed. -/
def BlockTags.mapSpans (change : Option Span → Option Span) (tags : BlockTags) : BlockTags where
  call := tags.call.mapSpans change
  openTrim := tags.openTrim
  elseTrim := tags.elseTrim
  closeTrim := tags.closeTrim
  span := change tags.span
  openSpan := change tags.openSpan
  elseSpan := change tags.elseSpan
  closeSpan := change tags.closeSpan

/-- The tags of an element with every span changed. -/
def ElementTags.mapSpans (change : Option Span → Option Span) (tags : ElementTags) :
    ElementTags where
  tag := tags.tag
  attributes := tags.attributes.map (Attribute.mapSpans change)
  modifiers := tags.modifiers.map (Modifier.mapSpans change)
  params := tags.params
  selfClosing := tags.selfClosing
  span := change tags.span
  startSpan := change tags.startSpan
  endSpan := change tags.endSpan

mutual

/-- A statement with every span changed. -/
def Statement.mapSpans (change : Option Span → Option Span) : Statement → Statement
  | .text run => .text (run.mapSpans change)
  | .mustache tag => .mustache (tag.mapSpans change)
  | .block tags program inverse =>
    .block (tags.mapSpans change) (program.mapSpans change) (mapInverse change inverse)
  | .element tags children => .element (tags.mapSpans change) (mapBody change children)
  | .comment remark => .comment (remark.mapSpans change)
  | .curlyComment remark => .curlyComment (remark.mapSpans change)

/-- A body with every span changed. -/
def mapBody (change : Option Span → Option Span) : List Statement → List Statement
  | [] => []
  | statement :: rest => statement.mapSpans change :: mapBody change rest

/-- A program with every span changed. -/
def Program.mapSpans (change : Option Span → Option Span) : Program → Program
  | ⟨body, params, chained⟩ => ⟨mapBody change body, params, chained⟩

/-- An inverse with every span changed. -/
def mapInverse (change : Option Span → Option Span) : Option Program → Option Program
  | none => none
  | some program => some (program.mapSpans change)

end

/-! ### What the reader holds on the way -/

namespace Reader

/-- Arguments with every span changed. -/
def Arguments.mapSpans (change : Option Span → Option Span) (given : Arguments) : Arguments :=
  ⟨mapPositional change given.positional, mapNamed change given.named, given.params,
    given.trimAfter⟩

/-- A call as read with every span changed. -/
def CallParts.mapSpans (change : Option Span → Option Span) (parts : CallParts) : CallParts :=
  ⟨parts.call.mapSpans change, parts.params, parts.trimAfter⟩

/-- The pieces of a start tag with every span changed. -/
def StartTag.mapSpans (change : Option Span → Option Span) (start : StartTag) : StartTag :=
  ⟨start.attributes.map (Attribute.mapSpans change), start.modifiers.map (Modifier.mapSpans change),
    start.params, start.selfClosing⟩

end Reader

/-! ### What the change leaves as it is -/

@[simp]
theorem mapPositional_isEmpty (change : Option Span → Option Span) (arguments : List Expression) :
    (mapPositional change arguments).isEmpty = arguments.isEmpty := by
  cases arguments <;> rfl

@[simp]
theorem mapNamed_isEmpty (change : Option Span → Option Span) (arguments : List NamedArgument) :
    (mapNamed change arguments).isEmpty = arguments.isEmpty := by
  cases arguments <;> rfl

@[simp]
theorem Expression.name?_mapSpans (change : Option Span → Option Span) (expression : Expression) :
    (expression.mapSpans change).name? = expression.name? := by
  cases expression <;> rfl

@[simp]
theorem Call.mapSpans_callee (change : Option Span → Option Span) (call : Call) :
    (call.mapSpans change).callee = call.callee.mapSpans change := by
  cases call; rfl

@[simp]
theorem Call.mapSpans_positional (change : Option Span → Option Span) (call : Call) :
    (call.mapSpans change).positional = mapPositional change call.positional := by
  cases call; rfl

@[simp]
theorem Call.mapSpans_named (change : Option Span → Option Span) (call : Call) :
    (call.mapSpans change).named = mapNamed change call.named := by
  cases call; rfl

/-! ### One change after another -/

mutual

theorem Expression.mapSpans_mapSpans (first second : Option Span → Option Span) :
    ∀ expression : Expression,
      (expression.mapSpans first).mapSpans second = expression.mapSpans (second ∘ first)
  | .path _ _ => rfl
  | .call call _ => congrArg (Expression.call · _) (Call.mapSpans_mapSpans first second call)
  | .literal _ _ => rfl

theorem Call.mapSpans_mapSpans (first second : Option Span → Option Span) :
    ∀ call : Call, (call.mapSpans first).mapSpans second = call.mapSpans (second ∘ first)
  | ⟨callee, positional, named⟩ => by
    simp only [Call.mapSpans, Expression.mapSpans_mapSpans first second callee,
      mapPositional_mapPositional first second positional, mapNamed_mapNamed first second named]

theorem mapPositional_mapPositional (first second : Option Span → Option Span) :
    ∀ arguments : List Expression,
      mapPositional second (mapPositional first arguments) =
        mapPositional (second ∘ first) arguments
  | [] => rfl
  | argument :: rest => by
    simp only [mapPositional, Expression.mapSpans_mapSpans first second argument,
      mapPositional_mapPositional first second rest]

theorem mapNamed_mapNamed (first second : Option Span → Option Span) :
    ∀ arguments : List NamedArgument,
      mapNamed second (mapNamed first arguments) = mapNamed (second ∘ first) arguments
  | [] => rfl
  | argument :: rest => by
    simp only [mapNamed, NamedArgument.mapSpans_mapSpans first second argument,
      mapNamed_mapNamed first second rest]

theorem NamedArgument.mapSpans_mapSpans (first second : Option Span → Option Span) :
    ∀ argument : NamedArgument,
      (argument.mapSpans first).mapSpans second = argument.mapSpans (second ∘ first)
  | ⟨_, value, _⟩ => by
    simp only [NamedArgument.mapSpans, Expression.mapSpans_mapSpans first second value,
      Function.comp_apply]

end

theorem Mustache.mapSpans_mapSpans (first second : Option Span → Option Span) (tag : Mustache) :
    (tag.mapSpans first).mapSpans second = tag.mapSpans (second ∘ first) := by
  simp only [Mustache.mapSpans, Call.mapSpans_mapSpans, Function.comp_apply]

theorem ValuePart.mapSpans_mapSpans (first second : Option Span → Option Span) (part : ValuePart) :
    (part.mapSpans first).mapSpans second = part.mapSpans (second ∘ first) := by
  cases part with
  | text run => rfl
  | mustache tag => simp only [ValuePart.mapSpans, Mustache.mapSpans_mapSpans]

theorem AttributeValue.mapSpans_mapSpans (first second : Option Span → Option Span)
    (value : AttributeValue) :
    (value.mapSpans first).mapSpans second = value.mapSpans (second ∘ first) := by
  cases value with
  | text run => rfl
  | mustache tag => simp only [AttributeValue.mapSpans, Mustache.mapSpans_mapSpans]
  | concat parts span =>
    simp only [AttributeValue.mapSpans, List.map_map, Function.comp_apply]
    refine congrArg (AttributeValue.concat · _) (List.map_congr_left fun part _ => ?_)
    exact ValuePart.mapSpans_mapSpans first second part

theorem Attribute.mapSpans_mapSpans (first second : Option Span → Option Span)
    (attr : Attribute) :
    (attr.mapSpans first).mapSpans second = attr.mapSpans (second ∘ first) := by
  simp only [Attribute.mapSpans, AttributeValue.mapSpans_mapSpans, Function.comp_apply]

theorem Modifier.mapSpans_mapSpans (first second : Option Span → Option Span)
    (modifier : Modifier) :
    (modifier.mapSpans first).mapSpans second = modifier.mapSpans (second ∘ first) := by
  simp only [Modifier.mapSpans, Call.mapSpans_mapSpans, Function.comp_apply]

theorem BlockTags.mapSpans_mapSpans (first second : Option Span → Option Span)
    (tags : BlockTags) :
    (tags.mapSpans first).mapSpans second = tags.mapSpans (second ∘ first) := by
  simp only [BlockTags.mapSpans, Call.mapSpans_mapSpans, Function.comp_apply]

theorem Attribute.mapSpans_comp (first second : Option Span → Option Span) :
    Attribute.mapSpans second ∘ Attribute.mapSpans first = Attribute.mapSpans (second ∘ first) :=
  funext (Attribute.mapSpans_mapSpans first second)

theorem Modifier.mapSpans_comp (first second : Option Span → Option Span) :
    Modifier.mapSpans second ∘ Modifier.mapSpans first = Modifier.mapSpans (second ∘ first) :=
  funext (Modifier.mapSpans_mapSpans first second)

theorem ElementTags.mapSpans_mapSpans (first second : Option Span → Option Span)
    (tags : ElementTags) :
    (tags.mapSpans first).mapSpans second = tags.mapSpans (second ∘ first) := by
  simp only [ElementTags.mapSpans, List.map_map, Attribute.mapSpans_comp, Modifier.mapSpans_comp,
    Function.comp_apply]

theorem Reader.StartTag.mapSpans_mapSpans (first second : Option Span → Option Span)
    (start : StartTag) :
    (start.mapSpans first).mapSpans second = start.mapSpans (second ∘ first) := by
  simp only [StartTag.mapSpans, List.map_map, Attribute.mapSpans_comp, Modifier.mapSpans_comp]

end TagMigration
