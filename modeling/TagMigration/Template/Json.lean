/-
Templates as JSON. Every node is an object that holds all its fields; kinds of nodes
are told apart by a member `type`, kinds of literals by a member `kind`. Decoding asks
for every field but those that may be `null`, so an object that lacks one is no node.
-/
import TagMigration.Json.Value
import TagMigration.Template.Basic

namespace TagMigration

/-! ### Encoding -/

/-- A span as JSON. -/
def Span.toJson (span : Span) : Json :=
  .object [("start", .natural span.start), ("end", .natural span.stop)]

/-- A span, or `null` where there is none. -/
def spanJson (span : Option Span) : Json :=
  .ofOption Span.toJson span

/-- A literal as JSON. -/
def Literal.toJson : Literal → Json
  | .string value => .object [("kind", .string "string"), ("value", .string value)]
  | .number digits => .object [("kind", .string "number"), ("value", .string digits)]
  | .boolean value => .object [("kind", .string "boolean"), ("value", .bool value)]
  | .null => .object [("kind", .string "null")]
  | .undefined => .object [("kind", .string "undefined")]

/-- The `~` markers of a tag as JSON. -/
def Trim.toJson (trim : Trim) : Json :=
  .object [("open", .bool trim.before), ("close", .bool trim.after)]

mutual

/-- An expression as JSON. -/
def Expression.toJson : Expression → Json
  | .path name span =>
    .object [("type", .string "path"), ("original", .string name), ("loc", spanJson span)]
  | .call call span => .object (("type", .string "sub-expression") :: call.fields span)
  | .literal value span =>
    .object [("type", .string "literal"), ("value", value.toJson), ("loc", spanJson span)]

/-- The members that describe a call, and the place of the node that holds it. -/
def Call.fields (span : Option Span) : Call → List (String × Json)
  | ⟨callee, positional, named⟩ =>
    [("path", callee.toJson), ("params", .array (expressionsJson positional)),
      ("hash", .object [("pairs", .array (namedJson named))]), ("loc", spanJson span)]

/-- Expressions as JSON. -/
def expressionsJson : List Expression → List Json
  | [] => []
  | argument :: rest => argument.toJson :: expressionsJson rest

/-- Named arguments as JSON. -/
def namedJson : List NamedArgument → List Json
  | [] => []
  | argument :: rest => argument.toJson :: namedJson rest

/-- A named argument as JSON. -/
def NamedArgument.toJson : NamedArgument → Json
  | ⟨key, value, span⟩ =>
    .object [("key", .string key), ("value", value.toJson), ("loc", spanJson span)]

end

/-- A run of text as JSON. -/
def TextRun.toJson (run : TextRun) : Json :=
  .object [("type", .string "text"), ("chars", .string run.chars), ("loc", spanJson run.span)]

/-- An inline curly tag as JSON. -/
def Mustache.toJson (tag : Mustache) : Json :=
  .object (("type", .string "mustache") :: ("trusting", .bool tag.trusting) ::
    ("strip", tag.trim.toJson) :: tag.call.fields tag.span)

/-- A part of a quoted value as JSON. -/
def ValuePart.toJson : ValuePart → Json
  | .text run => run.toJson
  | .mustache tag => tag.toJson

/-- An attribute value as JSON. -/
def AttributeValue.toJson : AttributeValue → Json
  | .text run => run.toJson
  | .mustache tag => tag.toJson
  | .concat parts span =>
    .object [("type", .string "concat"), ("parts", .array (parts.map ValuePart.toJson)),
      ("loc", spanJson span)]

/-- An attribute as JSON. -/
def Attribute.toJson (attr : Attribute) : Json :=
  .object [("name", .string attr.name), ("value", attr.value.toJson),
    ("loc", spanJson attr.span)]

/-- A modifier as JSON. -/
def Modifier.toJson (modifier : Modifier) : Json :=
  .object (modifier.call.fields modifier.span)

/-- The members that describe the tags of a block. -/
def BlockTags.fields (tags : BlockTags) : List (String × Json) :=
  ("openStrip", tags.openTrim.toJson) :: ("inverseStrip", tags.elseTrim.toJson) ::
    ("closeStrip", tags.closeTrim.toJson) :: ("openLoc", spanJson tags.openSpan) ::
    ("inverseLoc", spanJson tags.elseSpan) :: ("closeLoc", spanJson tags.closeSpan) ::
    tags.call.fields tags.span

/-- The members that describe the tags of an element. -/
def ElementTags.fields (tags : ElementTags) : List (String × Json) :=
  [("tag", .string tags.tag), ("attributes", .array (tags.attributes.map Attribute.toJson)),
    ("modifiers", .array (tags.modifiers.map Modifier.toJson)),
    ("blockParams", .strings tags.params), ("selfClosing", .bool tags.selfClosing),
    ("loc", spanJson tags.span), ("startTagLoc", spanJson tags.startSpan),
    ("endTagLoc", spanJson tags.endSpan)]

/-- A markup comment as JSON. -/
def Comment.toJson (comment : Comment) : Json :=
  .object [("type", .string "comment"), ("value", .string comment.value),
    ("loc", spanJson comment.span)]

/-- A curly comment as JSON. -/
def CurlyComment.toJson (comment : CurlyComment) : Json :=
  .object [("type", .string "mustache-comment"), ("value", .string comment.value),
    ("longForm", .bool comment.long), ("loc", spanJson comment.span)]

mutual

/-- A statement as JSON. -/
def Statement.toJson : Statement → Json
  | .text run => run.toJson
  | .mustache tag => tag.toJson
  | .block tags program none =>
    .object (("type", .string "block") :: ("program", program.toJson) :: ("inverse", .null) ::
      tags.fields)
  | .block tags program (some inverse) =>
    .object (("type", .string "block") :: ("program", program.toJson) ::
      ("inverse", inverse.toJson) :: tags.fields)
  | .element tags children =>
    .object (("type", .string "element") :: ("children", .array (bodyJson children)) ::
      tags.fields)
  | .comment remark => remark.toJson
  | .curlyComment remark => remark.toJson

/-- A program as JSON. -/
def Program.toJson : Program → Json
  | ⟨body, params, chained⟩ =>
    .object [("body", .array (bodyJson body)), ("blockParams", .strings params),
      ("chained", .bool chained)]

/-- Statements as JSON. -/
def bodyJson : List Statement → List Json
  | [] => []
  | statement :: rest => statement.toJson :: bodyJson rest

end

/-- A template as JSON. -/
def Template.toJson (template : Template) : Json :=
  .object [("identity", .string template.identity), ("source", .string template.source),
    ("body", .array (bodyJson template.body))]

/-! ### Decoding

Nodes hold nodes only inside the members of their objects, so decoding goes no deeper than the
value is deep: the decoders of nested nodes count down that depth. -/

/-- A span from JSON. -/
def Span.ofJson? (json : Json) : Option Span := do
  some ⟨← (← json.field? "start").natural?, ← (← json.field? "end").natural?⟩

/-- A value decoded, or none from `null`. -/
def nullable? {α : Type} (decode : Json → Option α) : Json → Option (Option α)
  | .null => some none
  | json => (decode json).map some

/-- What stands under a key, decoded, or none where `null` or nothing stands there. -/
def optionalField? {α : Type} (decode : Json → Option α) (key : String) (json : Json) :
    Option (Option α) :=
  match json.field? key with
  | none => some none
  | some value => nullable? decode value

/-- The span under a key. -/
def spanField? (key : String) (json : Json) : Option (Option Span) :=
  optionalField? Span.ofJson? key json

/-- The string under a key. -/
def stringField? (key : String) (json : Json) : Option String := do
  (← json.field? key).string?

/-- The boolean under a key. -/
def boolField? (key : String) (json : Json) : Option Bool := do
  (← json.field? key).bool?

/-- The strings under a key. -/
def stringsField? (key : String) (json : Json) : Option (List String) := do
  (← json.field? key).strings?

/-- The items of the array under a key, each decoded. -/
def itemsField? {α : Type} (decode : Json → Option α) (key : String) (json : Json) :
    Option (List α) := do
  (← (← json.field? key).array?).mapM decode

/-- A literal from JSON. -/
def Literal.ofJson? (json : Json) : Option Literal := do
  let kind ← stringField? "kind" json
  if kind = "string" then return .string (← stringField? "value" json)
  else if kind = "number" then return .number (← stringField? "value" json)
  else if kind = "boolean" then return .boolean (← boolField? "value" json)
  else if kind = "null" then return .null
  else if kind = "undefined" then return .undefined
  else none

/-- The `~` markers of a tag from JSON. -/
def Trim.ofJson? (json : Json) : Option Trim := do
  some ⟨← boolField? "open" json, ← boolField? "close" json⟩

/-- The `~` markers under a key. -/
def trimField? (key : String) (json : Json) : Option Trim := do
  Trim.ofJson? (← json.field? key)

/-- A named argument from JSON. -/
def namedArgument? (nested : Json → Option Expression) (json : Json) : Option NamedArgument := do
  some ⟨← stringField? "key" json, ← nested (← json.field? "value"),
    ← spanField? "loc" json⟩

/-- A call from the members of the node that holds it. -/
def call? (nested : Json → Option Expression) (json : Json) : Option Call := do
  let callee ← nested (← json.field? "path")
  let positional ← itemsField? nested "params" json
  let named ← itemsField? (namedArgument? nested) "pairs" (← json.field? "hash")
  some ⟨callee, positional, named⟩

/-- An expression from JSON that is at most `depth` deep. -/
def expressionWithin? : Nat → Json → Option Expression
  | 0, _ => none
  | depth + 1, json => do
    let kind ← stringField? "type" json
    let span ← spanField? "loc" json
    if kind = "path" then return .path (← stringField? "original" json) span
    else if kind = "sub-expression" then
      return .call (← call? (expressionWithin? depth) json) span
    else if kind = "literal" then
      return .literal (← Literal.ofJson? (← json.field? "value")) span
    else none

/-- An expression from JSON. -/
def Expression.ofJson? (json : Json) : Option Expression :=
  expressionWithin? json.depth json

/-- The call of a tag from JSON. -/
def Call.ofJson? (json : Json) : Option Call :=
  call? Expression.ofJson? json

/-- A run of text from JSON. -/
def TextRun.ofJson? (json : Json) : Option TextRun := do
  some ⟨← stringField? "chars" json, ← spanField? "loc" json⟩

/-- An inline curly tag from JSON. -/
def Mustache.ofJson? (json : Json) : Option Mustache := do
  some ⟨← Call.ofJson? json, ← boolField? "trusting" json, ← trimField? "strip" json,
    ← spanField? "loc" json⟩

/-- A part of a quoted value from JSON. -/
def ValuePart.ofJson? (json : Json) : Option ValuePart := do
  let kind ← stringField? "type" json
  if kind = "text" then return .text (← TextRun.ofJson? json)
  else if kind = "mustache" then return .mustache (← Mustache.ofJson? json)
  else none

/-- An attribute value from JSON. -/
def AttributeValue.ofJson? (json : Json) : Option AttributeValue := do
  let kind ← stringField? "type" json
  if kind = "text" then return .text (← TextRun.ofJson? json)
  else if kind = "mustache" then return .mustache (← Mustache.ofJson? json)
  else if kind = "concat" then
    return .concat (← itemsField? ValuePart.ofJson? "parts" json) (← spanField? "loc" json)
  else none

/-- An attribute from JSON. -/
def Attribute.ofJson? (json : Json) : Option Attribute := do
  some ⟨← stringField? "name" json, ← AttributeValue.ofJson? (← json.field? "value"),
    ← spanField? "loc" json⟩

/-- A modifier from JSON. -/
def Modifier.ofJson? (json : Json) : Option Modifier := do
  some ⟨← Call.ofJson? json, ← spanField? "loc" json⟩

/-- The tags of a block from the members of its object. -/
def BlockTags.ofJson? (json : Json) : Option BlockTags := do
  some ⟨← Call.ofJson? json, ← trimField? "openStrip" json, ← trimField? "inverseStrip" json,
    ← trimField? "closeStrip" json, ← spanField? "loc" json, ← spanField? "openLoc" json,
    ← spanField? "inverseLoc" json, ← spanField? "closeLoc" json⟩

/-- The tags of an element from the members of its object. -/
def ElementTags.ofJson? (json : Json) : Option ElementTags := do
  some ⟨← stringField? "tag" json, ← itemsField? Attribute.ofJson? "attributes" json,
    ← itemsField? Modifier.ofJson? "modifiers" json, ← stringsField? "blockParams" json,
    ← boolField? "selfClosing" json, ← spanField? "loc" json, ← spanField? "startTagLoc" json,
    ← spanField? "endTagLoc" json⟩

/-- A markup comment from JSON. -/
def Comment.ofJson? (json : Json) : Option Comment := do
  some ⟨← stringField? "value" json, ← spanField? "loc" json⟩

/-- A curly comment from JSON. -/
def CurlyComment.ofJson? (json : Json) : Option CurlyComment := do
  some ⟨← stringField? "value" json, ← boolField? "longForm" json, ← spanField? "loc" json⟩

/-- A program from JSON. -/
def program? (nested : Json → Option Statement) (json : Json) : Option Program := do
  some ⟨← itemsField? nested "body" json, ← stringsField? "blockParams" json,
    ← boolField? "chained" json⟩

/-- A statement from JSON that is at most `depth` deep. -/
def statementWithin? : Nat → Json → Option Statement
  | 0, _ => none
  | depth + 1, json => do
    let kind ← stringField? "type" json
    if kind = "text" then return .text (← TextRun.ofJson? json)
    else if kind = "mustache" then return .mustache (← Mustache.ofJson? json)
    else if kind = "block" then
      let program ← program? (statementWithin? depth) (← json.field? "program")
      let inverse ← optionalField? (program? (statementWithin? depth)) "inverse" json
      return .block (← BlockTags.ofJson? json) program inverse
    else if kind = "element" then
      let children ← itemsField? (statementWithin? depth) "children" json
      return .element (← ElementTags.ofJson? json) children
    else if kind = "comment" then return .comment (← Comment.ofJson? json)
    else if kind = "mustache-comment" then return .curlyComment (← CurlyComment.ofJson? json)
    else none

/-- A statement from JSON. -/
def Statement.ofJson? (json : Json) : Option Statement :=
  statementWithin? json.depth json

/-- A template from JSON. -/
def Template.ofJson? (json : Json) : Option Template := do
  some ⟨← stringField? "identity" json, ← stringField? "source" json,
    ← itemsField? Statement.ofJson? "body" json⟩

end TagMigration
