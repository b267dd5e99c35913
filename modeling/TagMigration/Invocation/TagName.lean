/-
Names as tags. An invocation name with dashes, underscores and slashes has a tag name
if it is made of words: each word is capitalised, the words of a segment are joined,
and the segments are joined by a double colon. A name with an empty word has no tag
name, because dropping the word would make two names one.
-/

namespace TagMigration.TagName

/-- A text cut at the characters that `isSeparator` picks out. There is always a first piece. -/
def pieces (isSeparator : Char → Bool) : List Char → List (List Char)
  | [] => [[]]
  | char :: rest =>
    if isSeparator char then [] :: pieces isSeparator rest
    else
      match pieces isSeparator rest with
      | [] => [[char]]
      | first :: more => (char :: first) :: more

/-- A word with its first character capitalised, if it is a word of letters and digits. -/
def capitalise? : List Char → Option (List Char)
  | [] => none
  | first :: rest =>
    if (first :: rest).all Char.isAlphanum then some (first.toUpper :: rest) else none

/-- A segment of a name: its words capitalised and joined. -/
def segment? (segment : List Char) : Option (List Char) := do
  let words ← (pieces (fun char => char == '-' || char == '_') segment).mapM capitalise?
  some words.flatten

/-- The tag name of an invocation name. -/
def ofName? (name : String) : Option String := do
  let segments ← (pieces (fun char => char == '/') name.toList).mapM segment?
  let tag := [':', ':'].intercalate segments
  match tag with
  | first :: _ => if first.isAlpha then some (String.ofList tag) else none
  | [] => none

end TagMigration.TagName
