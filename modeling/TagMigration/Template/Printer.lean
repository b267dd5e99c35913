/-
Printing a template. A node that has a span is copied from the source; a node
without one is spelled out from its fields. Text is an exception: it is always
written from its characters. Printing fails only when a span does not cut the source,
and then it reports the first such span in document order.
-/
import TagMigration.Template.Basic

namespace TagMigration

/-- What a printer yields: characters, or the first span that does not cut the source. -/
abbrev Printed := Except Span (List Char)

/-- The source at a span. -/
def copySpan (source : List Char) (span : Span) : Printed :=
  match slice? source span with
  | some chars => .ok chars
  | none => .error span

/-- A node's text: its slice if it was read, else what it spells out. -/
def copyOr (source : List Char) (span : Option Span) (spelled : Printed) : Printed :=
  match span with
  | some span => copySpan source span
  | none => spelled

/-! ### Small pieces -/

/-- The two opening braces of a curly tag. -/
def openBraces : List Char := ['{', '{']

/-- The two closing braces of a curly tag. -/
def closeBraces : List Char := ['}', '}']

/-- A `~` marker, if there is one. -/
def tilde (present : Bool) : List Char :=
  if present then ['~'] else []

/-- The inside of a double-quoted string: a double quote is written with a backslash before it. -/
def escapeQuotes : List Char → List Char
  | [] => []
  | char :: rest =>
    if char = '"' then '\\' :: '"' :: escapeQuotes rest else char :: escapeQuotes rest

/-- A literal as it is written. A string takes double quotes unless it holds some and no single
quote. -/
def Literal.print : Literal → List Char
  | .string value =>
    let chars := value.toList
    if chars.contains '"' && !chars.contains '\'' then '\'' :: chars ++ ['\'']
    else '"' :: escapeQuotes chars ++ ['"']
  | .number digits => digits.toList
  | .boolean true => "true".toList
  | .boolean false => "false".toList
  | .null => "null".toList
  | .undefined => "undefined".toList

/-- The names that a block or an element binds, with the words that introduce them. -/
def printParams (params : List String) : List Char :=
  if params.isEmpty then []
  else " as |".toList ++ (" ".intercalate params).toList ++ ['|']

/-! ### Expressions -/

mutual

/-- The text of an expression. -/
def Expression.print (source : List Char) : Expression → Printed
  | .path name span => copyOr source span (.ok name.toList)
  | .call call span =>
    copyOr source span (do return '(' :: (← call.print source) ++ [')'])
  | .literal value span => copyOr source span (.ok value.print)

/-- The text of a call: callee, positional and named arguments, each after a space. -/
def Call.print (source : List Char) : Call → Printed
  | ⟨callee, positional, named⟩ => do
    return (← callee.print source) ++ (← printPositional source positional) ++
      (← printNamed source named)

/-- Positional arguments, each after a space. -/
def printPositional (source : List Char) : List Expression → Printed
  | [] => .ok []
  | argument :: rest => do
    return ' ' :: (← argument.print source) ++ (← printPositional source rest)

/-- Named arguments, each after a space. -/
def printNamed (source : List Char) : List NamedArgument → Printed
  | [] => .ok []
  | argument :: rest => do
    return ' ' :: (← argument.print source) ++ (← printNamed source rest)

/-- A named argument. -/
def NamedArgument.print (source : List Char) : NamedArgument → Printed
  | ⟨key, value, span⟩ =>
    copyOr source span (do return key.toList ++ '=' :: (← value.print source))

end

/-! ### Tags -/

/-- The text of an inline curly tag. -/
def Mustache.print (source : List Char) (tag : Mustache) : Printed :=
  copyOr source tag.span do
    let inside ← tag.call.print source
    let opening := if tag.trusting then '{' :: openBraces else openBraces
    let closing := if tag.trusting then '}' :: closeBraces else closeBraces
    return opening ++ tilde tag.trim.before ++ inside ++ tilde tag.trim.after ++ closing

/-- The parts of a quoted attribute value. -/
def printValueParts (source : List Char) : List ValuePart → Printed
  | [] => .ok []
  | .text run :: rest => do
    return run.chars.toList ++ (← printValueParts source rest)
  | .mustache tag :: rest => do
    return (← tag.print source) ++ (← printValueParts source rest)

/-- The text of an attribute. An empty value is left out. -/
def Attribute.print (source : List Char) (attr : Attribute) : Printed :=
  copyOr source attr.span do
    let name := attr.name.toList
    match attr.value with
    | .text run =>
      return if run.chars.isEmpty then name else name ++ '=' :: '"' :: run.chars.toList ++ ['"']
    | .mustache tag => return name ++ '=' :: (← tag.print source)
    | .concat parts _ => return name ++ '=' :: '"' :: (← printValueParts source parts) ++ ['"']

/-- The text of a modifier. -/
def Modifier.print (source : List Char) (modifier : Modifier) : Printed :=
  copyOr source modifier.span do
    return openBraces ++ (← modifier.call.print source) ++ closeBraces

/-- Attributes, each after a space. -/
def printAttributes (source : List Char) : List Attribute → Printed
  | [] => .ok []
  | attr :: rest => do
    return ' ' :: (← attr.print source) ++ (← printAttributes source rest)

/-- Modifiers, each after a space. -/
def printModifiers (source : List Char) : List Modifier → Printed
  | [] => .ok []
  | modifier :: rest => do
    return ' ' :: (← modifier.print source) ++ (← printModifiers source rest)

/-- The opening tag of a block. A chained block opens with `else`, any other with a hash sign. -/
def BlockTags.printOpen (source : List Char) (tags : BlockTags) (params : List String)
    (chained : Bool) : Printed :=
  copyOr source tags.openSpan do
    let inside ← tags.call.print source
    let mark := if chained then "else ".toList else ['#']
    return openBraces ++ tilde tags.openTrim.before ++ mark ++ inside ++ printParams params ++
      tilde tags.openTrim.after ++ closeBraces

/-- The `else` tag between a program and a plain inverse. -/
def BlockTags.printElse (source : List Char) (tags : BlockTags) : Printed :=
  copyOr source tags.elseSpan <|
    .ok (openBraces ++ tilde tags.elseTrim.before ++ "else".toList ++ tilde tags.elseTrim.after ++
      closeBraces)

/-- The closing tag of a block. -/
def BlockTags.printClose (source : List Char) (tags : BlockTags) : Printed :=
  copyOr source tags.closeSpan do
    let name ← tags.call.callee.print source
    return openBraces ++ tilde tags.closeTrim.before ++ '/' :: name ++
      tilde tags.closeTrim.after ++ closeBraces

/-- The start tag of an element. -/
def ElementTags.printStart (source : List Char) (tags : ElementTags) : Printed :=
  copyOr source tags.startSpan do
    let attributes ← printAttributes source tags.attributes
    let modifiers ← printModifiers source tags.modifiers
    let ending := if tags.selfClosing then " />".toList else ['>']
    return '<' :: tags.tag.toList ++ attributes ++ modifiers ++ printParams tags.params ++ ending

/-- The end tag of an element. A void element that was read has none. -/
def ElementTags.printEnd (source : List Char) (tags : ElementTags) : Printed :=
  copyOr source tags.endSpan <|
    .ok (if tags.startSpan.isNone || !isVoidTag tags.tag then
        "</".toList ++ tags.tag.toList ++ ['>']
      else [])

/-! ### Comments -/

/-- The text of a markup comment. -/
def Comment.print (source : List Char) (comment : Comment) : Printed :=
  copyOr source comment.span (.ok ("<!--".toList ++ comment.value.toList ++ "-->".toList))

/-- The text of a curly comment. -/
def CurlyComment.print (source : List Char) (comment : CurlyComment) : Printed :=
  let dashes := if comment.long then ['-', '-'] else []
  copyOr source comment.span
    (.ok (openBraces ++ '!' :: dashes ++ comment.value.toList ++ dashes ++ closeBraces))

/-! ### Statements -/

mutual

/-- The text of a statement. -/
def Statement.print (source : List Char) : Statement → Printed
  | .text run => .ok run.chars.toList
  | .mustache tag => tag.print source
  | .block tags program inverse => do
    return (← tags.printOpen source program.params false) ++ (← program.print source) ++
      (← printInverse source tags inverse) ++ (← tags.printClose source)
  | .element tags children => do
    let start ← tags.printStart source
    if tags.selfClosing then return start
    return start ++ (← printBody source children) ++ (← tags.printEnd source)
  | .comment remark => remark.print source
  | .curlyComment remark => remark.print source

/-- The text of a body. -/
def printBody (source : List Char) : List Statement → Printed
  | [] => .ok []
  | statement :: rest => do
    return (← statement.print source) ++ (← printBody source rest)

/-- The text of a program is that of its body. -/
def Program.print (source : List Char) : Program → Printed
  | ⟨body, _, _⟩ => printBody source body

/-- The inverse of a block, with the `else` tag in front of it if it is a plain one. -/
def printInverse (source : List Char) (tags : BlockTags) : Option Program → Printed
  | none => .ok []
  | some ⟨body, _, true⟩ => printChain source body
  | some ⟨body, _, false⟩ => do
    return (← tags.printElse source) ++ (← printBody source body)

/-- The body of a chained inverse: a block in it opens with `else` and has no closing tag. -/
def printChain (source : List Char) : List Statement → Printed
  | [] => .ok []
  | .block tags program inverse :: rest => do
    return (← tags.printOpen source program.params true) ++ (← program.print source) ++
      (← printInverse source tags inverse) ++ (← printChain source rest)
  | statement :: rest => do
    return (← statement.print source) ++ (← printChain source rest)

end

/-- The text of a template, or the first span that does not cut its source. -/
def Template.print (template : Template) : Except Span String := do
  return String.ofList (← printBody template.source.toList template.body)

end TagMigration
