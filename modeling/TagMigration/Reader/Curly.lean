/-
Reading the curly tags that hold no content: inline tags and curly comments.
-/
import TagMigration.Reader.Expression

namespace TagMigration.Reader

/-! ### Inline tags -/

/-- An inline tag; the cursor is on its first brace. -/
def mustache (cursor : Cursor) : Except Fault (Mustache × Cursor) := do
  let trusting := cursor.startsWith ['{', '{', '{']
  let (trimBefore, inside) := (cursor.skip (if trusting then 3 else 2)).eatTilde
  if inside.startsWith ['#'] || inside.startsWith ['!'] || inside.startsWith ['/'] then
    fault cursor.offset .notInline
  else
    let closer := if trusting then Closer.tripleBraces else Closer.braces
    let (parts, after) ← tagCall closer cursor.offset inside
    if parts.params.isEmpty then
      let trim : Trim := ⟨trimBefore, parts.trimAfter⟩
      .ok (⟨parts.call, trusting, trim, some (cursor.spanTo after)⟩, after)
    else fault cursor.offset .paramsOnMustache

/-! ### Comments -/

/-- The inside of a long comment and the size of its ending. The ending is the first of dashes and
braces with or without a `~` marker between them. -/
def longComment? (text : List Char) : Option (List Char × Nat) :=
  match before? ['-', '-', '}', '}'] text, before? ['-', '-', '~', '}', '}'] text with
  | some plain, some marked =>
    some (if plain.length ≤ marked.length then (plain, 4) else (marked, 5))
  | some plain, none => some (plain, 4)
  | none, some marked => some (marked, 5)
  | none, none => none

/-- The inside of a short comment and the size of its ending. A `~` marker right before the braces
belongs to the ending. -/
def shortComment? (text : List Char) : Option (List Char × Nat) :=
  (before? ['}', '}'] text).map fun inside =>
    if inside.getLast? = some '~' then (inside.dropLast, 3) else (inside, 2)

/-- A curly comment that begins at `begin`; the cursor is on its exclamation mark. -/
def curlyComment (begin : Cursor) (cursor : Cursor) : Except Fault (CurlyComment × Cursor) :=
  let marked := cursor.skip 1
  let long := marked.startsWith ['-', '-']
  let inside := if long then marked.skip 2 else marked
  match if long then longComment? inside.rest else shortComment? inside.rest with
  | none => fault begin.offset .unclosedCurlyComment
  | some (value, ending) =>
    let after := inside.skip (value.length + ending)
    .ok (⟨String.ofList value, long, some (begin.spanTo after)⟩, after)

end TagMigration.Reader
