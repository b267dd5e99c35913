/-
Templates as trees. A template is markup with curly tags in it; its tree keeps, for
every node that was read, the span of source it was read from. A node that a pass
builds has no span. That difference is what the printer goes by: it copies a spanned
node from the source and spells out a built one.
-/
import TagMigration.Source.Span

namespace TagMigration

/-! ### Expressions -/

/-- A literal. A number keeps its digits as they were written. -/
inductive Literal where
  | string (value : String)
  | number (digits : String)
  | boolean (value : Bool)
  | null
  | undefined
deriving DecidableEq, Repr

mutual

/-- What may stand as the name, an argument or the value of a named argument of a call. -/
inductive Expression where
  | path (name : String) (span : Option Span)
  | call (call : Call) (span : Option Span)
  | literal (value : Literal) (span : Option Span)

/-- A callee with its positional and named arguments: the inside of every curly tag. -/
structure Call where
  callee : Expression
  positional : List Expression
  named : List NamedArgument

/-- An argument given by name, `key=value`. -/
structure NamedArgument where
  key : String
  value : Expression
  span : Option Span

end

/-- The name of an expression that is a path. -/
def Expression.name? : Expression → Option String
  | .path name _ => some name
  | .call .. => none
  | .literal .. => none

/-! ### The parts of a statement -/

/-- The `~` markers of one curly tag: whether it trims the text before it and after it. -/
structure Trim where
  before : Bool
  after : Bool
deriving DecidableEq, Repr

/-- No `~` marker. -/
def Trim.none : Trim := ⟨false, false⟩

/-- Whether a tag carries any `~` marker. -/
def Trim.any (trim : Trim) : Bool :=
  trim.before || trim.after

/-- A run of plain text. -/
structure TextRun where
  chars : String
  span : Option Span
deriving DecidableEq, Repr

/-- A markup comment, which opens with an angle bracket. -/
structure Comment where
  value : String
  span : Option Span
deriving DecidableEq, Repr

/-- A curly comment. The long form is the one with dashes, which may hold closing braces. -/
structure CurlyComment where
  value : String
  long : Bool
  span : Option Span
deriving DecidableEq, Repr

/-- An inline curly tag. It is trusting if it has three braces: its output is not escaped. -/
structure Mustache where
  call : Call
  trusting : Bool
  trim : Trim
  span : Option Span

/-- One part of a quoted attribute value. -/
inductive ValuePart where
  | text (run : TextRun)
  | mustache (tag : Mustache)

/-- The value of an attribute. An attribute without a value has an empty text. -/
inductive AttributeValue where
  | text (run : TextRun)
  | mustache (tag : Mustache)
  | concat (parts : List ValuePart) (span : Option Span)

/-- An attribute of an element. -/
structure Attribute where
  name : String
  value : AttributeValue
  span : Option Span

/-- A curly tag that stands among the attributes of an element. -/
structure Modifier where
  call : Call
  span : Option Span

/-- The tags of a block: what it calls, the `~` markers of its opening, middle and closing tag,
and where the block and each of its tags stand. The middle tag is absent without a plain inverse
and the closing tag is absent from a chained block. -/
structure BlockTags where
  call : Call
  openTrim : Trim
  elseTrim : Trim
  closeTrim : Trim
  span : Option Span
  openSpan : Option Span
  elseSpan : Option Span
  closeSpan : Option Span

/-- The tags of an element. The end tag is absent from a void or self-closing element. -/
structure ElementTags where
  tag : String
  attributes : List Attribute
  modifiers : List Modifier
  params : List String
  selfClosing : Bool
  span : Option Span
  startSpan : Option Span
  endSpan : Option Span

/-! ### Statements -/

mutual

/-- A node of a template's content. -/
inductive Statement where
  | text (run : TextRun)
  | mustache (tag : Mustache)
  | block (tags : BlockTags) (program : Program) (inverse : Option Program)
  | element (tags : ElementTags) (children : List Statement)
  | comment (remark : Comment)
  | curlyComment (remark : CurlyComment)

/-- A body with the block params that it binds. As the inverse of a block it may be chained: then
it continues the block by an `else` tag that is itself a call, and its body is that block. -/
structure Program where
  body : List Statement
  params : List String
  chained : Bool

end

/-- Where a statement was read from. -/
def Statement.span : Statement → Option Span
  | .text run => run.span
  | .mustache tag => tag.span
  | .block tags _ _ => tags.span
  | .element tags _ => tags.span
  | .comment remark => remark.span
  | .curlyComment remark => remark.span

/-- A template: its identity, which joins it with telemetry, its source and its content. -/
structure Template where
  identity : String
  source : String
  body : List Statement

/-! ### Building nodes

These nodes have no span. -/

namespace Build

/-- A path. -/
def path (name : String) : Expression :=
  .path name none

/-- A string literal. -/
def string (value : String) : Expression :=
  .literal (.string value) none

/-- A text. -/
def text (chars : String) : Statement :=
  .text ⟨chars, none⟩

/-- A program that is not chained. -/
def program (body : List Statement) (params : List String) : Program :=
  ⟨body, params, false⟩

/-- A plain inline tag that shows the value of an expression. -/
def mustache (value : Expression) : Mustache :=
  ⟨⟨value, [], []⟩, false, .none, none⟩

/-- An element without modifiers. -/
def element (tag : String) (attributes : List Attribute) (params : List String)
    (selfClosing : Bool) (children : List Statement) : Statement :=
  .element ⟨tag, attributes, [], params, selfClosing, none, none, none⟩ children

end Build

/-! ### Kinds of tags -/

/-- Whether a tag invokes a component, given which characters are in upper case: it begins with one of
these or with an at sign, or it has a dot in it. -/
def isComponentTag (isUppercase : Char → Bool) (tag : String) : Bool :=
  tag.toList.head?.any isUppercase || ['@'].isPrefixOf tag.toList || tag.toList.contains '.'

/-- The void elements of markup, which have neither children nor an end tag. -/
def voidTags : List String :=
  ["area", "base", "br", "col", "command", "embed", "hr", "img", "input", "keygen", "link",
    "meta", "param", "source", "track", "wbr"]

/-- Whether a tag is a void element. -/
def isVoidTag (tag : String) : Bool :=
  voidTags.contains tag

end TagMigration
