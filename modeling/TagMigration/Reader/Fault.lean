/-
Why a template cannot be read. A reader that fails names the byte offset it blames
and the cause. The causes are data; their wording is one function, so that a proof
about when a cause arises never meets a message.
-/

namespace TagMigration

/-! ### Causes -/

/-- Curly constructs that are recognised only to be refused. -/
inductive Construct where
  | rawBlock
  | partialBlock
  | decoratorBlock
  | partialTag
  | decoratorTag
  | inverseSection
  | unescapedTag
deriving DecidableEq, Repr

/-- How a refused construct is named in a message. -/
def Construct.display : Construct → String
  | .rawBlock => "\x7b\x7b\x7b\x7braw\x7d\x7d\x7d\x7d"
  | .partialBlock => "\x7b\x7b#> partial-block\x7d\x7d"
  | .decoratorBlock => "\x7b\x7b#* decorator\x7d\x7d"
  | .partialTag => "\x7b\x7b> partial\x7d\x7d"
  | .decoratorTag => "\x7b\x7b* decorator\x7d\x7d"
  | .inverseSection => "\x7b\x7b^inverse\x7d\x7d"
  | .unescapedTag => "\x7b\x7b& unescaped\x7d\x7d"

/-- What ends a call: the braces of its tag, or the parenthesis of a nested call. -/
inductive Closer where
  | braces
  | tripleBraces
  | parenthesis
deriving DecidableEq, Repr

/-- The characters of a closer. -/
def Closer.chars : Closer → List Char
  | .braces => ['}', '}']
  | .tripleBraces => ['}', '}', '}']
  | .parenthesis => [')']

/-- Why a template cannot be read. -/
inductive Cause where
  | unclosedComment
  | unclosedCurlyComment
  | notInline
  | paramsOnMustache
  | missingCloser (closer : Closer)
  | positionalAfterNamed
  | unclosedParams
  | emptyParams
  | missingExpression
  | paramsOnCall
  | unexpectedCharacter (char : Char)
  | unterminatedString
  | unnamedBlock
  | unnamedClose
  | unendedClose
  | mismatchedClose (close name : String)
  | repeatedElse (name : String)
  | unclosedBlock (name : String)
  | closingTagInBlock (name : String)
  | unnamedChain
  | missingTagName
  | unclosedStartTag (tag : String)
  | unclosedElement (tag : String)
  | missingEndTagName
  | unendedEndTag (close : String)
  | mismatchedEndTag (close tag : String)
  | invalidAttribute (tag : String)
  | missingValue (name : String)
  | unterminatedValue
  | strayClosingTag
  | strayElse
  | strayClose
  | unrecognized (construct : Construct)
deriving DecidableEq, Repr

/-- The offset that a reader blames, and the cause. -/
structure Fault where
  offset : Nat
  cause : Cause
deriving DecidableEq, Repr

/-! ### Wording -/

/-- A tag in double braces. -/
def inBraces (inside : String) : String :=
  "\x7b\x7b" ++ inside ++ "\x7d\x7d"

/-- The wording of a cause. -/
def Cause.message : Cause → String
  | .unclosedComment => "Unclosed comment `<!--`"
  | .unclosedCurlyComment => "Unclosed comment `\x7b\x7b!`"
  | .notInline => "Expected an inline mustache"
  | .paramsOnMustache => "Block params are only allowed on blocks and elements"
  | .missingCloser closer => "Expected `" ++ String.ofList closer.chars ++ "` before end of input"
  | .positionalAfterNamed => "Positional arguments must precede named arguments"
  | .unclosedParams => "Unclosed block params `as |`"
  | .emptyParams => "Empty block params"
  | .missingExpression => "Expected an expression before end of input"
  | .paramsOnCall => "Block params are not allowed in sub-expressions"
  | .unexpectedCharacter char => "Expected an expression, found `" ++ char.toString ++ "`"
  | .unterminatedString => "Unterminated string literal"
  | .unnamedBlock => "Block invocations must name a path"
  | .unnamedClose => "Expected a block name after `\x7b\x7b/`"
  | .unendedClose => "Expected `\x7d\x7d` to end the close tag"
  | .mismatchedClose close name =>
    inBraces ("/" ++ close) ++ " does not match " ++ inBraces ("#" ++ name)
  | .repeatedElse name =>
    "Unexpected " ++ inBraces "else" ++ " after the inverse of " ++ inBraces ("#" ++ name)
  | .unclosedBlock name => "Unclosed block " ++ inBraces ("#" ++ name)
  | .closingTagInBlock name => "Unexpected closing tag inside " ++ inBraces ("#" ++ name)
  | .unnamedChain => "Chained blocks must name a path"
  | .missingTagName => "Expected a tag name"
  | .unclosedStartTag tag => "Unclosed start tag <" ++ tag ++ ">"
  | .unclosedElement tag => "Unclosed element <" ++ tag ++ ">"
  | .missingEndTagName => "Expected a tag name after `</`"
  | .unendedEndTag close => "Expected `>` to end </" ++ close
  | .mismatchedEndTag close tag =>
    "Closing tag </" ++ close ++ "> did not match last open tag <" ++ tag ++ ">"
  | .invalidAttribute tag => "Invalid character in start tag <" ++ tag ++ ">"
  | .missingValue name => "Missing value for `" ++ name ++ "`"
  | .unterminatedValue => "Unterminated attribute value"
  | .strayClosingTag => "Closing tag without a matching open tag"
  | .strayElse => inBraces "else" ++ " outside of a block"
  | .strayClose => "Close block without a matching open block"
  | .unrecognized construct => "unrecognized node `" ++ construct.display ++ "`"

end TagMigration
