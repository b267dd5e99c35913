/-
Spans that fit together. The parts of a node tile it: the first begins where the node begins, each
one begins where the last one ends, and the last ends where the node ends. Between the pieces of
a start tag there may be blanks and comments, so they are only in order. What is
required of each kind of node is said here; texts come into it because two of them next to
each other would be one.
-/
import Mathlib.Data.List.Chain
import TagMigration.Invocation.Basic
import TagMigration.Proofs.Reading.Nodes
import TagMigration.Proofs.Reading.Places

namespace TagMigration

/-! ### Lists of spans -/

/-- Spans that follow on one another from `start` to `stop`. None is missing and none is empty. -/
def Tiles : Nat → Nat → List (Option Span) → Prop
  | start, stop, [] => start = stop
  | _, _, none :: _ => False
  | start, stop, some span :: rest =>
    span.start = start ∧ start < span.stop ∧ Tiles span.stop stop rest

/-- Spans in increasing order between `low` and `high`, no two of which overlap. None is missing and
none is empty. -/
def Ascends : Nat → Nat → List (Option Span) → Prop
  | low, high, [] => low ≤ high
  | _, _, none :: _ => False
  | low, high, some span :: rest =>
    low ≤ span.start ∧ span.start < span.stop ∧ Ascends span.stop high rest

section Lists

variable {start middle stop : Nat} {first second : List (Option Span)}

theorem Tiles.append (tiles : Tiles start middle first) (more : Tiles middle stop second) :
    Tiles start stop (first ++ second) := by
  induction first generalizing start with
  | nil =>
    obtain rfl : start = middle := tiles
    exact more
  | cons span rest inductionHypothesis =>
    cases span with
    | none => cases tiles
    | some span =>
      obtain ⟨starts, filled, further⟩ := tiles
      exact ⟨starts, filled, inductionHypothesis further⟩

/-- The span of a text in front of more spans. -/
theorem Tiles.cons {offset : Nat} {piece : List Char} (nonempty : piece ≠ [])
    (more : Tiles (offset + byteSize piece) stop second) :
    Tiles offset stop (some ⟨offset, offset + byteSize piece⟩ :: second) :=
  ⟨rfl, Nat.lt_add_of_pos_right (Reader.byteSize_pos nonempty), more⟩

theorem tiles_single {offset : Nat} {piece : List Char} (nonempty : piece ≠ []) :
    Tiles offset (offset + byteSize piece) [some ⟨offset, offset + byteSize piece⟩] :=
  Tiles.cons nonempty rfl

theorem Ascends.lower {low below high : Nat} (lower : below ≤ low)
    (ascends : Ascends low high first) : Ascends below high first := by
  cases first with
  | nil => exact Nat.le_trans lower ascends
  | cons span rest =>
    cases span with
    | none => cases ascends
    | some span => exact ⟨Nat.le_trans lower ascends.1, ascends.2⟩

end Lists

/-! ### Nodes -/

/-- Where a part of a value stands. -/
def ValuePart.span : ValuePart → Option Span
  | .text run => run.span
  | .mustache tag => tag.span

/-- The parts of a value tile the text between its quotes. -/
def AttributeValue.Tiled (source : List Char) : AttributeValue → Prop
  | .concat parts span => ∃ place quote inside, (quote = '"' ∨ quote = '\'') ∧
      Stands source place (quote :: inside ++ [quote]) ∧
      span = some ⟨place, place + byteSize (quote :: inside ++ [quote])⟩ ∧
      Tiles (place + byteSize [quote]) (place + byteSize (quote :: inside))
        (parts.map ValuePart.span)
  | .text _ => True
  | .mustache _ => True

/-- Whether a statement is a text. -/
def Statement.isText : Statement → Bool
  | .text _ => true
  | .mustache _ => false
  | .block .. => false
  | .element .. => false
  | .comment _ => false
  | .curlyComment _ => false

/-- No two neighbours in a body are texts. -/
def Separated (body : List Statement) : Prop :=
  body.IsChain fun first second => first.isText = false ∨ second.isText = false

theorem Separated.cons {statement : Statement} {body : List Statement}
    (ended : statement.isText = false ∨ Reader.startsWithText body = false)
    (separated : Separated body) : Separated (statement :: body) := by
  cases body with
  | nil => exact List.isChain_singleton _
  | cons second rest =>
    refine List.isChain_cons_cons.mpr ⟨ended.imp id fun noText => ?_, separated⟩
    cases second <;> first | rfl | cases noText

/-- The attributes and the modifiers of an element are in order inside its start tag, which is the
whole element if it stands alone; otherwise start tag, children and end tag tile it. -/
structure ElementTags.Tiled (source : List Char) (tags : ElementTags) (children : List Statement)
    (span startSpan : Span) : Prop where
  isSpan : tags.span = some span
  isStart : tags.startSpan = some startSpan
  alone : (tags.selfClosing || isVoidTag tags.tag) = true →
    startSpan = span ∧ tags.endSpan = none ∧ children = []
  tiles : (tags.selfClosing || isVoidTag tags.tag) = false →
    Tiles span.start span.stop (tags.startSpan :: (children.map Statement.span ++ [tags.endSpan]))
  attributes : Ascends startSpan.start startSpan.stop (tags.attributes.map Attribute.span)
  modifiers : Ascends startSpan.start startSpan.stop (tags.modifiers.map Modifier.span)
  values : ∀ attr ∈ tags.attributes, attr.value.Tiled source
  separated : Separated children

/-- The spans between the program and the closing tag of a block: none, those of the `else` tag and
the inverse, or that of the one chained block. -/
inductive InverseSpans (tags : BlockTags) : Option Program → List (Option Span) → Prop where
  | none (noElse : tags.elseSpan = none) : InverseSpans tags none []
  | body {body : List Statement} (separated : Separated body) :
    InverseSpans tags (some ⟨body, [], false⟩) (tags.elseSpan :: body.map Statement.span)
  | block (noElse : tags.elseSpan = none) (chained : BlockTags) (program : Program)
    (inverse : Option Program) :
    InverseSpans tags (some ⟨[.block chained program inverse], [], true⟩) [chained.span]

/-- The opening tag, the program, what follows it and the closing tag tile a block. A chained block,
and only a chained block, has no closing tag. -/
structure BlockTags.Tiled (tags : BlockTags) (chained : Bool) (program : Program)
    (inverse : Option Program) (span : Span) (others : List (Option Span)) : Prop where
  isSpan : tags.span = some span
  between : InverseSpans tags inverse others
  closes : tags.closeSpan.isNone = chained
  tiles : Tiles span.start span.stop (tags.openSpan :: (program.body.map Statement.span ++ others) ++
    if chained then [] else [tags.closeSpan])
  separated : Separated program.body

/-- What is required of the spans of a node. -/
def Node.Tiled (source : List Char) : Node → Prop
  | ⟨.text run, _⟩ => run.chars ≠ ""
  | ⟨.element tags children, _⟩ => ∃ span startSpan, tags.Tiled source children span startSpan
  | ⟨.block tags program inverse, chained⟩ =>
    ∃ span others, tags.Tiled chained program inverse span others
  | ⟨.mustache _, _⟩ => True
  | ⟨.comment _, _⟩ => True
  | ⟨.curlyComment _, _⟩ => True

/-- The offsets at which the invocations among some nodes begin. -/
def nodeIds (nodes : List Node) : List (Option Nat) :=
  (nodes.filterMap fun node => node.statement.invocation?).map Invocation.id?

/-- The spans of a template tile its source, those of each node tile the node, and no two inline tags
or blocks begin at the same place. -/
structure Template.Tiled (template : Template) : Prop where
  tiles : Tiles 0 (byteSize template.source.toList) (template.body.map Statement.span)
  separated : Separated template.body
  nodes : ∀ node ∈ template.nodes, node.Tiled template.source.toList
  known : none ∉ nodeIds template.nodes
  distinct : (nodeIds template.nodes).Nodup

end TagMigration
