/-
Scanning a source by byte offset. A reader holds the characters that are left. A scanner holds the
whole source and one byte offset: it takes a slice wherever it looks, steps on by numbers of bytes,
and goes on with a loop as long as it likes. So a scanner can go wrong where a reader cannot: a
slice can be out of range or cut a character, a loop can stand still or never end. Here every slice
is checked, every round of a loop that goes on has to get further, and the rounds are counted.
-/
import TagMigration.Reader.Fault
import TagMigration.Source.Span
import TagMigration.Text.Blank
import TagMigration.Text.Search

namespace TagMigration

/-- Why a scan ends without a result. A fault is an answer about the source. The others are the ways
in which a scanner goes wrong: a slice that is out of range or not on character boundaries, a round
of a loop that goes on without having got further, and more rounds than were allowed. -/
inductive Halt where
  | fault (fault : Fault)
  | badSlice
  | stuck
  | exhausted
deriving DecidableEq, Repr

namespace Scan

/-! ### Scanning -/

/-- A fault at an offset. -/
def blame {α : Type} (offset : Nat) (cause : Cause) : Except Halt α :=
  .error (.fault ⟨offset, cause⟩)

/-- A loop at `place` goes on at `after`, if that is further on. -/
def goOn (place after : Nat) : Except Halt Unit :=
  if place < after then .ok () else .error .stuck

/-- The number of bytes before the first occurrence of `token`. -/
def find (token text : List Char) : Option Nat :=
  (before? token text).map byteSize

section Scanners

variable (source : List Char)

/-- The slice from an offset to the end of the source. -/
def rest (place : Nat) : Except Halt (List Char) :=
  match splitBytes place source with
  | some (_, text) => .ok text
  | none => .error .badSlice

/-- The slice between two offsets. -/
def slice (start stop : Nat) : Except Halt (List Char) :=
  match slice? source ⟨start, stop⟩ with
  | some text => .ok text
  | none => .error .badSlice

/-- The offset after the blanks that stand here. -/
def skipBlanks (place : Nat) : Except Halt Nat := do
  let text ← rest source place
  .ok (place + (byteSize text - byteSize (text.dropWhile isBlank)))

/-- Whether `token` stands here, and the offset after it. -/
def eat (token : List Char) (place : Nat) : Except Halt (Bool × Nat) := do
  let text ← rest source place
  .ok (if token.isPrefixOf text then (true, place + byteSize token) else (false, place))

end Scanners

end Scan

end TagMigration
