/-
Lines and columns. A message about a template names the place as a line and a
column, both counted from one; a column counts characters. The place is computed
from a byte offset. An offset past the end means the end; one inside a character
has no character count, so its column counts bytes.
-/
import TagMigration.Source.Span

namespace TagMigration

/-- A place in a source text as people count: line and column from one. -/
structure Location where
  line : Nat
  column : Nat
deriving DecidableEq, Repr

/-- Walks `remaining` bytes into the text; `line` and `column` are those of the place reached so
far, `bytes` the number of bytes since the line began. -/
def Location.advance (line column bytes remaining : Nat) : List Char → Location
  | [] => ⟨line, column⟩
  | char :: rest =>
    if remaining = 0 then ⟨line, column⟩
    else if remaining < char.utf8Size then ⟨line, bytes + remaining + 1⟩
    else if char = '\n' then Location.advance (line + 1) 1 0 (remaining - char.utf8Size) rest
    else
      Location.advance line (column + 1) (bytes + char.utf8Size) (remaining - char.utf8Size) rest

/-- The line and column of a byte offset. -/
def Location.ofOffset (source : List Char) (offset : Nat) : Location :=
  Location.advance 1 1 0 offset source

end TagMigration
