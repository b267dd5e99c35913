/-
A place in the text that is being read: the byte offset, and the characters from
there on. Every step of a reader takes characters off the front and adds their size
to the offset, so the two never disagree.
-/
import TagMigration.Reader.Fault
import TagMigration.Source.Span
import TagMigration.Text.Blank

namespace TagMigration

/-- A place in a text: its byte offset and what stands from there on. -/
structure Cursor where
  offset : Nat
  rest : List Char
deriving DecidableEq, Repr

/-- A fault at an offset. -/
def fault {α : Type} (offset : Nat) (cause : Cause) : Except Fault α :=
  .error ⟨offset, cause⟩

namespace Cursor

/-- The place at the beginning of a text. -/
def ofText (text : List Char) : Cursor :=
  ⟨0, text⟩

/-- The place `count` characters further on. -/
def skip (cursor : Cursor) (count : Nat) : Cursor :=
  ⟨cursor.offset + byteSize (cursor.rest.take count), cursor.rest.drop count⟩

/-- The place after the blanks that stand here. -/
def skipBlanks (cursor : Cursor) : Cursor :=
  cursor.skip (cursor.rest.takeWhile isBlank).length

/-- Whether `token` stands here. -/
def startsWith (cursor : Cursor) (token : List Char) : Bool :=
  token.isPrefixOf cursor.rest

/-- The place after `token`, if it stands here. -/
def eat? (cursor : Cursor) (token : List Char) : Option Cursor :=
  if cursor.startsWith token then some (cursor.skip token.length) else none

/-- Whether a `~` marker stands here, and the place after it. -/
def eatTilde (cursor : Cursor) : Bool × Cursor :=
  match cursor.eat? ['~'] with
  | some after => (true, after)
  | none => (false, cursor)

/-- The span from here to a later place. -/
def spanTo (cursor later : Cursor) : Span :=
  ⟨cursor.offset, later.offset⟩

end Cursor

end TagMigration
