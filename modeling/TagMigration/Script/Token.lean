/-
The words of a script. A helper module is accepted only if it is a module of the script
language, so its text has to be cut into words first: names, numbers, quoted texts and signs,
with blanks and comments between them.

Two kinds of text do not fit this picture. Whether a slash divides or opens a regular
expression, and where the text of a template literal goes on after a substitution, only the
grammar knows. So words are cut one at a time, when the grammar asks for the next one, and
the grammar calls `regularExpression?` and `templateText?` itself.
-/
import TagMigration.Text.Blank

namespace TagMigration.Script

/-! ### Characters -/

/-- A character that ends a line. -/
def isLineBreak (char : Char) : Bool :=
  char == '\n' || char == '\r' || char == '\u2028' || char == '\u2029'

/-- A character that may stand between words: a blank other than next line, or a byte order
mark. -/
def isGap (char : Char) : Bool :=
  (isBlank char && char != '\u0085') || char == '\ufeff'

/-- A character that may open a name. Beyond ASCII every character that is no gap is taken for
a letter. -/
def isNameStart (char : Char) : Bool :=
  char.isAlpha || char == '$' || char == '_' || (128 ≤ char.toNat && !isGap char)

/-- A character that may go on with a name. -/
def isNamePart (char : Char) : Bool :=
  isNameStart char || char.isDigit

/-- A hexadecimal digit. -/
def isHexDigit (char : Char) : Bool :=
  char.isDigit || ('a' ≤ char && char ≤ 'f') || ('A' ≤ char && char ≤ 'F')

/-! ### Between words -/

/-- Where in a gap a character stands. -/
inductive Gap where
  | between
  | lineComment
  | blockComment

/-- What is left after the blanks and comments at the front of a text, and whether a line broke
among them. A block comment has to be closed. -/
def skipGap : Gap → Bool → List Char → Option (Bool × List Char)
  | .blockComment, _, [] => none
  | _, broke, [] => some (broke, [])
  | .between, broke, '/' :: '/' :: rest => skipGap .lineComment broke rest
  | .between, broke, '/' :: '*' :: rest => skipGap .blockComment broke rest
  | .between, broke, char :: rest =>
    if isGap char then skipGap .between (broke || isLineBreak char) rest
    else some (broke, char :: rest)
  | .lineComment, broke, char :: rest =>
    if isLineBreak char then skipGap .between true rest else skipGap .lineComment broke rest
  | .blockComment, broke, '*' :: '/' :: rest => skipGap .between broke rest
  | .blockComment, broke, char :: rest => skipGap .blockComment (broke || isLineBreak char) rest

/-! ### Numbers -/

/-- Whether underscores stand only between digits. -/
def isSeparated (afterDigit : Bool) : List Char → Bool
  | [] => afterDigit
  | '_' :: rest => afterDigit && isSeparated false rest
  | _ :: rest => isSeparated true rest

/-- What follows one or more digits. -/
def digits? (isDigit : Char → Bool) (text : List Char) : Option (List Char) :=
  let inRun := fun char => isDigit char || char == '_'
  if isSeparated false (text.takeWhile inRun) then some (text.dropWhile inRun) else none

/-- What follows an exponent, if one stands at the front. -/
def exponent? : List Char → Option (List Char)
  | mark :: rest =>
    if mark == 'e' || mark == 'E' then
      match rest with
      | '+' :: rest => digits? Char.isDigit rest
      | '-' :: rest => digits? Char.isDigit rest
      | rest => digits? Char.isDigit rest
    else some (mark :: rest)
  | [] => some []

/-- What follows the fraction and the exponent of a number. -/
def fraction? : List Char → Option (List Char)
  | '.' :: digit :: rest =>
    if digit.isDigit then do exponent? (← digits? Char.isDigit (digit :: rest))
    else exponent? (digit :: rest)
  | '.' :: [] => some []
  | rest => exponent? rest

/-- The digits of a number that is marked by the letter after its leading zero. -/
def radixDigits? (mark : Char) : Option (Char → Bool) :=
  if mark == 'x' || mark == 'X' then some isHexDigit
  else if mark == 'o' || mark == 'O' then some fun char => '0' ≤ char && char ≤ '7'
  else if mark == 'b' || mark == 'B' then some fun char => char == '0' || char == '1'
  else none

/-- What follows an integer, with or without the mark of a big one. -/
def afterInteger : List Char → List Char
  | 'n' :: rest => rest
  | rest => rest

/-- What follows a number whose digits are decimal. -/
def decimal? (text : List Char) : Option (List Char) := do
  match ← digits? Char.isDigit text with
  | 'n' :: rest => some rest
  | rest => fraction? rest

/-- What follows the number at the front of a text. No name and no digit may touch it. -/
def number? (text : List Char) : Option (List Char) := do
  let rest ← match text with
    | '0' :: mark :: rest =>
      match radixDigits? mark with
      | some isDigit => (digits? isDigit rest).map afterInteger
      | none => decimal? text
    | '.' :: _ => fraction? text
    | _ => decimal? text
  if rest.head?.any isNamePart then none else some rest

/-! ### Quoted texts -/

/-- Whether what follows a backslash is complete: two hexadecimal digits after an `x`, four
or a braced run after a `u`, and anything else by itself. -/
def isEscape : List Char → Bool
  | 'x' :: first :: second :: _ => isHexDigit first && isHexDigit second
  | 'x' :: _ => false
  | 'u' :: '\x7b' :: rest =>
    (rest.head?.any isHexDigit) && (rest.dropWhile isHexDigit).head? == some '\x7d'
  | 'u' :: rest => 4 ≤ (rest.take 4).length && (rest.take 4).all isHexDigit
  | _ => true

/-- The text up to the closing quote, as written, and what follows the quote. -/
def quoted? (quote : Char) : List Char → Option (List Char × List Char)
  | [] => none
  | '\\' :: '\r' :: '\n' :: rest => quoted? quote rest
  | '\\' :: char :: rest =>
    if isEscape (char :: rest) then
      (quoted? quote rest).map fun (text, rest) => ('\\' :: char :: text, rest)
    else none
  | char :: rest =>
    if char == quote then some ([], rest)
    else if char == '\n' || char == '\r' then none
    else (quoted? quote rest).map fun (text, rest) => (char :: text, rest)

/-- What follows a stretch of a template literal, and whether the literal ended there; if not,
a substitution opens. Only a tagged literal may hold incomplete escapes. -/
def templateText? (tagged : Bool) : List Char → Option (Bool × List Char)
  | [] => none
  | '\x60' :: rest => some (true, rest)
  | '$' :: '\x7b' :: rest => some (false, rest)
  | '\\' :: char :: rest =>
    if tagged || isEscape (char :: rest) then templateText? tagged rest else none
  | _ :: rest => templateText? tagged rest

/-! ### Regular expressions -/

/-- What follows the body of a regular expression and its closing slash. -/
def afterPattern? (inClass : Bool) : List Char → Option (List Char)
  | [] => none
  | '\\' :: char :: rest => if isLineBreak char then none else afterPattern? inClass rest
  | char :: rest =>
    if isLineBreak char then none
    else if char == '/' && !inClass then some rest
    else if char == '[' then afterPattern? true rest
    else if char == ']' then afterPattern? false rest
    else afterPattern? inClass rest

/-- Whether every flag is known and stands once. -/
def areFlags : List Char → Bool
  | [] => true
  | flag :: rest => "dgimsuvy".toList.contains flag && !rest.contains flag && areFlags rest

/-- What follows a regular expression, given what follows its opening slash. -/
def regularExpression? (text : List Char) : Option (List Char) := do
  let rest ← afterPattern? false text
  if areFlags (rest.takeWhile isNamePart) then some (rest.dropWhile isNamePart) else none

/-! ### Signs -/

/-- The signs, longer ones first. -/
def signs : List String :=
  [">>>=", "...", "===", "!==", "**=", "<<=", ">>=", ">>>", "&&=", "||=", "??=", "=>", "==",
    "!=", "<=", ">=", "&&", "||", "??", "?.", "++", "--", "+=", "-=", "*=", "/=", "%=", "&=",
    "|=", "^=", "<<", ">>", "**", "\x7b", "\x7d", "(", ")", "[", "]", ".", ";", ",", "<", ">",
    "+", "-", "*", "/", "%", "&", "|", "^", "!", "~", "?", ":", "=", "\x60"]

/-- The longest sign at the front of a text, and what follows it. A question mark before a
fraction stands by itself. -/
def sign? (text : List Char) : Option (String × List Char) :=
  match text with
  | '?' :: '.' :: digit :: _ =>
    if digit.isDigit then some ("?", text.drop 1) else some ("?.", text.drop 2)
  | _ =>
    (signs.find? fun sign => sign.toList.isPrefixOf text).map fun sign =>
      (sign, text.drop sign.length)

/-! ### Words -/

/-- A word of a script. Keywords are names; what they may do is for the grammar. -/
inductive Token where
  | finish
  | name (text : String)
  | privateName
  | number
  | quoted (text : String)
  | sign (text : String)
deriving DecidableEq, Repr

/-- The word at the front of a text that starts with no gap, and what follows it. -/
def Token.scan? : List Char → Option (Token × List Char)
  | [] => some (.finish, [])
  | '#' :: char :: rest =>
    if isNameStart char then some (.privateName, rest.dropWhile isNamePart) else none
  | char :: rest =>
    if isNameStart char then
      some (.name (String.ofList (char :: rest.takeWhile isNamePart)), rest.dropWhile isNamePart)
    else if char.isDigit || (char == '.' && rest.head?.any Char.isDigit) then
      (number? (char :: rest)).map fun rest => (.number, rest)
    else if char == '\'' || char == '"' then
      (quoted? char rest).map fun (text, rest) => (.quoted (String.ofList text), rest)
    else (sign? (char :: rest)).map fun (mark, rest) => (.sign mark, rest)

end TagMigration.Script
