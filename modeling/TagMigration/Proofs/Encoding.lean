/-
Templates that are encoded as JSON and decoded again. The members of an encoded node are found
under their keys, since no two of them share a key. What is absent, a span or an inverse, is a
`null`, and nothing that may be absent is encoded as one otherwise; the literal `null` is an object.
Decoding goes down with the depth of a value, so the induction on a node shows that its encoding
is decoded at every depth that it does not exceed.
-/
import TagMigration.Template.Json

namespace TagMigration

/-! ### Members -/

namespace Json

@[simp]
theorem field?_self (key : String) (value : Json) (members : List (String × Json)) :
    (object ((key, value) :: members)).field? key = some value := by
  simp [field?]

@[simp]
theorem field?_other {key other : String} (ne : other ≠ key) (value : Json)
    (members : List (String × Json)) :
    (object ((other, value) :: members)).field? key = (object members).field? key := by
  simp [field?, beq_false_of_ne ne]

@[simp]
theorem string?_string (value : String) : (string value).string? = some value := rfl

@[simp]
theorem bool?_bool (value : Bool) : (bool value).bool? = some value := rfl

@[simp]
theorem natural?_natural (value : Nat) : (natural value).natural? = some value := rfl

@[simp]
theorem array?_array (items : List Json) : (array items).array? = some items := rfl

/-- Under the keys of given members a value holds just these members. -/
def Holds (json : Json) (members : List (String × Json)) : Prop :=
  ∀ member ∈ members, json.field? member.1 = some member.2

theorem depth_pos (json : Json) : 0 < json.depth := by
  cases json <;> exact Nat.succ_pos _

end Json

section Items

variable {Value : Type} {encode : Value → Json} {decode : Json → Option Value}
  (decodes : ∀ value, decode (encode value) = some value)
include decodes

/-- What is encoded item by item is decoded so. -/
theorem mapM_encoded (values : List Value) : (values.map encode).mapM decode = some values := by
  induction values with
  | nil => rfl
  | cons value values inductionHypothesis =>
    rw [List.map_cons, List.mapM_cons, decodes, inductionHypothesis]
    rfl

theorem itemsField?_eq {json : Json} {key : String} {values : List Value}
    (found : json.field? key = some (.array (values.map encode))) :
    itemsField? decode key json = some values := by
  rw [itemsField?, found]
  exact mapM_encoded decodes values

end Items

@[simp]
theorem Json.strings?_strings (values : List String) :
    (Json.strings values).strings? = some values := by
  show (values.map Json.string).mapM Json.string? = some values
  exact mapM_encoded Json.string?_string values

/-! ### Spans, literals and markers -/

@[simp]
theorem Span.ofJson?_toJson (span : Span) : Span.ofJson? span.toJson = some span := by
  simp [Span.ofJson?, Span.toJson]

@[simp]
theorem nullable?_spanJson (span : Option Span) :
    nullable? Span.ofJson? (spanJson span) = some span := by
  cases span with
  | none => rfl
  | some span => exact congrArg (Option.map some) (Span.ofJson?_toJson span)

@[simp]
theorem Literal.ofJson?_toJson (value : Literal) : Literal.ofJson? value.toJson = some value := by
  cases value <;> simp [Literal.ofJson?, Literal.toJson, stringField?, boolField?]

@[simp]
theorem Trim.ofJson?_toJson (trim : Trim) : Trim.ofJson? trim.toJson = some trim := by
  simp [Trim.ofJson?, Trim.toJson, boolField?]

/-! ### Expressions -/

section Call

variable {callee : Expression} {positional : List Expression} {named : List NamedArgument}

/-- A call is decoded from an object that holds its members, if the expressions in it are. -/
theorem call?_eq {nested : Json → Option Expression} {json : Json}
    (path : json.field? "path" = some callee.toJson)
    (params : json.field? "params" = some (.array (expressionsJson positional)))
    (hash : json.field? "hash" = some (.object [("pairs", .array (namedJson named))]))
    (decodesCallee : nested callee.toJson = some callee)
    (decodesPositional : (expressionsJson positional).mapM nested = some positional)
    (decodesNamed : (namedJson named).mapM (namedArgument? nested) = some named) :
    call? nested json = some ⟨callee, positional, named⟩ := by
  simp [call?, itemsField?, path, params, hash, decodesCallee, decodesPositional, decodesNamed]

end Call

/-- A named argument is decoded if its value is. -/
theorem namedArgument?_toJson {nested : Json → Option Expression} {argument : NamedArgument}
    (decodes : nested argument.value.toJson = some argument.value) :
    namedArgument? nested argument.toJson = some argument := by
  obtain ⟨key, value, span⟩ := argument
  simp [namedArgument?, NamedArgument.toJson, stringField?, spanField?, optionalField?, decodes]

mutual

/-- An expression is decoded at every depth that its encoding does not exceed. -/
theorem expressionWithin?_toJson : ∀ (expression : Expression) {depth : Nat},
    expression.toJson.depth ≤ depth → expressionWithin? depth expression.toJson = some expression
  | expression, 0, deep => absurd (Json.depth_pos expression.toJson) (Nat.not_lt.mpr deep)
  | .path name span, depth + 1, _ => by
    simp [expressionWithin?, Expression.toJson, stringField?, spanField?, optionalField?]
  | .literal value span, depth + 1, _ => by
    simp [expressionWithin?, Expression.toJson, stringField?, spanField?, optionalField?]
  | .call ⟨callee, positional, named⟩ span, depth + 1, deep => by
    simp only [Expression.toJson, Call.fields, Json.depth, Json.membersDepth,
      Nat.add_le_add_iff_right, Nat.max_le, Nat.max_zero] at deep
    obtain ⟨-, inCallee, inPositional, inNamed, -⟩ := deep
    have decodes : call? (expressionWithin? depth)
        (Expression.call ⟨callee, positional, named⟩ span).toJson =
          some ⟨callee, positional, named⟩ := by
      rw [Expression.toJson, Call.fields]
      exact call?_eq (by simp) (by simp) (by simp) (expressionWithin?_toJson callee inCallee)
        (positionalWithin?_toJson positional (by omega)) (namedWithin?_toJson named (by omega))
    simp only [Expression.toJson, Call.fields] at decodes ⊢
    simp [expressionWithin?, stringField?, spanField?, optionalField?, decodes]

theorem positionalWithin?_toJson : ∀ (arguments : List Expression) {depth : Nat},
    Json.itemsDepth (expressionsJson arguments) ≤ depth →
      (expressionsJson arguments).mapM (expressionWithin? depth) = some arguments
  | [], _, _ => rfl
  | argument :: rest, depth, deep => by
    rw [expressionsJson, Json.itemsDepth, Nat.max_le] at deep
    rw [expressionsJson, List.mapM_cons, expressionWithin?_toJson argument deep.1,
      positionalWithin?_toJson rest deep.2]
    rfl

theorem namedWithin?_toJson : ∀ (arguments : List NamedArgument) {depth : Nat},
    Json.itemsDepth (namedJson arguments) ≤ depth →
      (namedJson arguments).mapM (namedArgument? (expressionWithin? depth)) = some arguments
  | [], _, _ => rfl
  | ⟨key, value, span⟩ :: rest, depth, deep => by
    simp only [namedJson, NamedArgument.toJson, Json.itemsDepth, Json.depth, Json.membersDepth,
      Nat.max_le] at deep
    have decodes : namedArgument? (expressionWithin? depth)
        (NamedArgument.toJson ⟨key, value, span⟩) = some ⟨key, value, span⟩ :=
      namedArgument?_toJson (expressionWithin?_toJson value (by omega))
    rw [namedJson, List.mapM_cons, decodes, namedWithin?_toJson rest deep.2]
    rfl

end

@[simp]
theorem Expression.ofJson?_toJson (expression : Expression) :
    Expression.ofJson? expression.toJson = some expression :=
  expressionWithin?_toJson expression (Nat.le_refl _)

/-! ### Tags -/

theorem expressionsJson_eq (arguments : List Expression) :
    expressionsJson arguments = arguments.map Expression.toJson := by
  induction arguments with
  | nil => rfl
  | cons argument rest inductionHypothesis => exact congrArg (_ :: ·) inductionHypothesis

theorem namedJson_eq (arguments : List NamedArgument) :
    namedJson arguments = arguments.map NamedArgument.toJson := by
  induction arguments with
  | nil => rfl
  | cons argument rest inductionHypothesis => exact congrArg (_ :: ·) inductionHypothesis

theorem mapM_expressionsJson (arguments : List Expression) :
    (expressionsJson arguments).mapM Expression.ofJson? = some arguments := by
  rw [expressionsJson_eq]
  exact mapM_encoded Expression.ofJson?_toJson arguments

theorem mapM_namedJson (arguments : List NamedArgument) :
    (namedJson arguments).mapM (namedArgument? Expression.ofJson?) = some arguments := by
  rw [namedJson_eq]
  exact mapM_encoded (fun argument => namedArgument?_toJson argument.value.ofJson?_toJson) arguments

/-- The call of a tag is decoded from an object that holds its members. -/
theorem Call.ofJson?_eq {json : Json} {call : Call} {span : Option Span}
    (holds : json.Holds (call.fields span)) : Call.ofJson? json = some call := by
  obtain ⟨callee, positional, named⟩ := call
  simp only [Json.Holds, Call.fields, List.forall_mem_cons] at holds
  obtain ⟨path, params, hash, -⟩ := holds
  exact call?_eq path params hash callee.ofJson?_toJson (mapM_expressionsJson positional)
    (mapM_namedJson named)

theorem Call.spanField?_eq {json : Json} {call : Call} {span : Option Span}
    (holds : json.Holds (call.fields span)) : spanField? "loc" json = some span := by
  obtain ⟨callee, positional, named⟩ := call
  simp only [Json.Holds, Call.fields, List.forall_mem_cons] at holds
  obtain ⟨-, -, -, loc, -⟩ := holds
  simp [spanField?, optionalField?, loc]

@[simp]
theorem TextRun.ofJson?_toJson (run : TextRun) : TextRun.ofJson? run.toJson = some run := by
  simp [TextRun.ofJson?, TextRun.toJson, stringField?, spanField?, optionalField?]

@[simp]
theorem Mustache.ofJson?_toJson (tag : Mustache) : Mustache.ofJson? tag.toJson = some tag := by
  obtain ⟨call, trusting, trim, span⟩ := tag
  have holds : (Mustache.toJson ⟨call, trusting, trim, span⟩).Holds (call.fields span) := by
    obtain ⟨callee, positional, named⟩ := call
    simp [Json.Holds, Mustache.toJson, Call.fields]
  rw [ofJson?, Call.ofJson?_eq holds, Call.spanField?_eq holds, toJson]
  simp [boolField?, trimField?]

@[simp]
theorem ValuePart.ofJson?_toJson (part : ValuePart) : ofJson? part.toJson = some part := by
  cases part with
  | text run =>
    rw [toJson, ofJson?, TextRun.ofJson?_toJson]
    simp [TextRun.toJson, stringField?]
  | mustache tag =>
    rw [toJson, ofJson?, Mustache.ofJson?_toJson]
    simp [Mustache.toJson, stringField?]

@[simp]
theorem AttributeValue.ofJson?_toJson (value : AttributeValue) :
    ofJson? value.toJson = some value := by
  cases value with
  | text run =>
    rw [toJson, ofJson?, TextRun.ofJson?_toJson]
    simp [TextRun.toJson, stringField?]
  | mustache tag =>
    rw [toJson, ofJson?, Mustache.ofJson?_toJson]
    simp [Mustache.toJson, stringField?]
  | concat parts span =>
    have decodes : itemsField? ValuePart.ofJson? "parts" (concat parts span).toJson = some parts :=
      itemsField?_eq ValuePart.ofJson?_toJson (by simp [toJson])
    rw [ofJson?, decodes, toJson]
    simp [stringField?, spanField?, optionalField?]

@[simp]
theorem Attribute.ofJson?_toJson (attr : Attribute) : ofJson? attr.toJson = some attr := by
  simp [ofJson?, toJson, stringField?, spanField?, optionalField?]

@[simp]
theorem Modifier.ofJson?_toJson (modifier : Modifier) :
    ofJson? modifier.toJson = some modifier := by
  obtain ⟨call, span⟩ := modifier
  have holds : (Modifier.toJson ⟨call, span⟩).Holds (call.fields span) := by
    obtain ⟨callee, positional, named⟩ := call
    simp [Json.Holds, toJson, Call.fields]
  rw [ofJson?, Call.ofJson?_eq holds, Call.spanField?_eq holds]
  rfl

/-- The tags of a block are decoded from an object that holds their members. -/
theorem BlockTags.ofJson?_eq {json : Json} {tags : BlockTags} (holds : json.Holds tags.fields) :
    ofJson? json = some tags := by
  simp only [Json.Holds, fields, List.forall_mem_cons] at holds
  obtain ⟨openTrim, elseTrim, closeTrim, openSpan, elseSpan, closeSpan, call⟩ := holds
  rw [ofJson?, Call.ofJson?_eq call, Call.spanField?_eq call]
  simp [trimField?, spanField?, optionalField?, *]

/-- The tags of an element are decoded from an object that holds their members. -/
theorem ElementTags.ofJson?_eq {json : Json} {tags : ElementTags} (holds : json.Holds tags.fields) :
    ofJson? json = some tags := by
  simp only [Json.Holds, fields, List.forall_mem_cons] at holds
  obtain ⟨tag, attributes, modifiers, params, selfClosing, span, startSpan, endSpan, -⟩ := holds
  rw [ofJson?, itemsField?_eq Attribute.ofJson?_toJson attributes,
    itemsField?_eq Modifier.ofJson?_toJson modifiers]
  simp [stringField?, stringsField?, boolField?, spanField?, optionalField?, *]

@[simp]
theorem Comment.ofJson?_toJson (comment : Comment) : ofJson? comment.toJson = some comment := by
  simp [ofJson?, toJson, stringField?, spanField?, optionalField?]

@[simp]
theorem CurlyComment.ofJson?_toJson (comment : CurlyComment) :
    ofJson? comment.toJson = some comment := by
  simp [ofJson?, toJson, stringField?, boolField?, spanField?, optionalField?]

/-! ### Statements -/

theorem Statement.toJson_block (tags : BlockTags) (program : Program) (inverse : Option Program) :
    (block tags program inverse).toJson = .object (("type", .string "block") ::
      ("program", program.toJson) :: ("inverse", .ofOption Program.toJson inverse) ::
        tags.fields) := by
  cases inverse <;> rw [toJson] <;> rfl

/-- The members of a block other than those of its tags have keys of their own. -/
theorem BlockTags.holds_fields (tags : BlockTags) (program inverse : Json) :
    (Json.object (("type", .string "block") :: ("program", program) :: ("inverse", inverse) ::
      tags.fields)).Holds tags.fields := by
  obtain ⟨⟨callee, positional, named⟩, openTrim, elseTrim, closeTrim, span, openSpan, elseSpan,
    closeSpan⟩ := tags
  simp [Json.Holds, fields, Call.fields]

mutual

/-- A statement is decoded at every depth that its encoding does not exceed. -/
theorem statementWithin?_toJson : ∀ (statement : Statement) {depth : Nat},
    statement.toJson.depth ≤ depth → statementWithin? depth statement.toJson = some statement
  | statement, 0, deep => absurd (Json.depth_pos statement.toJson) (Nat.not_lt.mpr deep)
  | .text run, depth + 1, _ => by
    rw [Statement.toJson, statementWithin?, TextRun.ofJson?_toJson]
    simp [TextRun.toJson, stringField?]
  | .mustache tag, depth + 1, _ => by
    rw [Statement.toJson, statementWithin?, Mustache.ofJson?_toJson]
    simp [Mustache.toJson, stringField?]
  | .comment remark, depth + 1, _ => by
    rw [Statement.toJson, statementWithin?, Comment.ofJson?_toJson]
    simp [Comment.toJson, stringField?]
  | .curlyComment remark, depth + 1, _ => by
    rw [Statement.toJson, statementWithin?, CurlyComment.ofJson?_toJson]
    simp [CurlyComment.toJson, stringField?]
  | .element tags children, depth + 1, deep => by
    have holds : (Statement.element tags children).toJson.Holds tags.fields := by
      simp [Json.Holds, Statement.toJson, ElementTags.fields]
    have decodesTags := ElementTags.ofJson?_eq holds
    simp only [Statement.toJson, Json.depth, Json.membersDepth, Nat.add_le_add_iff_right,
      Nat.max_le] at deep
    have decodes : (bodyJson children).mapM (statementWithin? depth) = some children :=
      bodyWithin?_toJson children (by omega)
    rw [Statement.toJson] at decodesTags ⊢
    simp [statementWithin?, stringField?, itemsField?, decodes, decodesTags]
  | .block tags program inverse, depth + 1, deep => by
    rw [Statement.toJson_block] at deep ⊢
    have decodesTags := BlockTags.ofJson?_eq (tags.holds_fields program.toJson
      (.ofOption Program.toJson inverse))
    simp only [Json.depth, Json.membersDepth, Nat.add_le_add_iff_right, Nat.max_le] at deep
    obtain ⟨-, inProgram, inInverse, -⟩ := deep
    have decodes := programWithin?_toJson program inProgram
    have decodesInverse := inverseWithin?_toJson inverse inInverse
    simp [statementWithin?, stringField?, optionalField?, decodes, decodesInverse, decodesTags]

theorem programWithin?_toJson : ∀ (program : Program) {depth : Nat},
    program.toJson.depth ≤ depth → program? (statementWithin? depth) program.toJson = some program
  | ⟨body, params, chained⟩, depth, deep => by
    simp only [Program.toJson, Json.depth, Json.membersDepth] at deep
    have decodes : (bodyJson body).mapM (statementWithin? depth) = some body :=
      bodyWithin?_toJson body (by omega)
    simp [program?, Program.toJson, itemsField?, stringsField?, boolField?, decodes]

theorem inverseWithin?_toJson : ∀ (inverse : Option Program) {depth : Nat},
    (Json.ofOption Program.toJson inverse).depth ≤ depth →
      nullable? (program? (statementWithin? depth)) (.ofOption Program.toJson inverse) =
        some inverse
  | none, _, _ => rfl
  | some ⟨body, params, chained⟩, depth, deep => by
    have decodes := programWithin?_toJson ⟨body, params, chained⟩ deep
    rw [Json.ofOption]
    rw [Program.toJson] at decodes ⊢
    exact congrArg (Option.map some) decodes

theorem bodyWithin?_toJson : ∀ (body : List Statement) {depth : Nat},
    Json.itemsDepth (bodyJson body) ≤ depth →
      (bodyJson body).mapM (statementWithin? depth) = some body
  | [], _, _ => rfl
  | statement :: rest, depth, deep => by
    rw [bodyJson, Json.itemsDepth, Nat.max_le] at deep
    rw [bodyJson, List.mapM_cons, statementWithin?_toJson statement deep.1,
      bodyWithin?_toJson rest deep.2]
    rfl

end

theorem Statement.ofJson?_toJson (statement : Statement) :
    Statement.ofJson? statement.toJson = some statement :=
  statementWithin?_toJson statement (Nat.le_refl _)

theorem bodyJson_eq (body : List Statement) : bodyJson body = body.map Statement.toJson := by
  induction body with
  | nil => rfl
  | cons statement rest inductionHypothesis => exact congrArg (_ :: ·) inductionHypothesis

theorem mapM_bodyJson (body : List Statement) :
    (bodyJson body).mapM Statement.ofJson? = some body := by
  rw [bodyJson_eq]
  exact mapM_encoded Statement.ofJson?_toJson body

/-- Decoding undoes encoding: every template, however its nodes are nested and whether they have
spans or not, is given back by its JSON form. -/
theorem Template.ofJson?_encoded (template : Template) :
    Template.ofJson? template.toJson = some template := by
  simp [ofJson?, toJson, stringField?, itemsField?, mapM_bodyJson]

end TagMigration
