/-
Reading JSON. The grammar is the strict one: no comments, no trailing commas, no
leading zeros, no raw control characters in strings. On top of the grammar a value
that is kept must be one that can be held: its nesting is bounded, a number must be in
the range of a double, and an escaped surrogate must be half of a pair. A value that
is only skipped is held to the grammar alone.
-/
import TagMigration.Json.Decimal
import TagMigration.Json.Value

namespace TagMigration.Json

/-- What becomes of a value that is read. -/
inductive Purpose where
  | keep
  | skip
deriving DecidableEq, Repr

/-- The whitespace of JSON. -/
def isSpace (char : Char) : Bool :=
  char == ' ' || char == '\n' || char == '\r' || char == '\t'

/-- The text after leading whitespace. -/
def skipSpace (text : List Char) : List Char :=
  text.dropWhile isSpace

/-! ### Strings -/

/-- The value of a hexadecimal digit. -/
def hexDigit? (char : Char) : Option Nat :=
  if char.isDigit then some (char.toNat - '0'.toNat)
  else if 'a' ≤ char ∧ char ≤ 'f' then some (char.toNat - 'a'.toNat + 10)
  else if 'A' ≤ char ∧ char ≤ 'F' then some (char.toNat - 'A'.toNat + 10)
  else none

/-- The value of four hexadecimal digits. -/
def hexUnit? : List Char → Option (Nat × List Char)
  | a :: b :: c :: d :: rest => do
    let high := 16 * (← hexDigit? a) + (← hexDigit? b)
    let low := 16 * (← hexDigit? c) + (← hexDigit? d)
    some (256 * high + low, rest)
  | _ => none

/-- The character of an escape with digits. A unit of a surrogate pair needs its other half. -/
def escapedUnit? (purpose : Purpose) (text : List Char) : Option (Char × List Char) := do
  let (unit, rest) ← hexUnit? text
  if unit < 0xd800 ∨ 0xdfff < unit then some (Char.ofNat unit, rest)
  else if purpose = .skip then some ('\ufffd', rest)
  else if 0xdbff < unit then none
  else
    match rest with
    | '\\' :: 'u' :: rest =>
      let (second, rest) ← hexUnit? rest
      if 0xdc00 ≤ second ∧ second ≤ 0xdfff then
        some (Char.ofNat (0x10000 + 0x400 * (unit - 0xd800) + (second - 0xdc00)), rest)
      else none
    | _ => none

/-- The character of an escape; the backslash is behind. -/
def escaped? (purpose : Purpose) : List Char → Option (Char × List Char)
  | [] => none
  | char :: rest =>
    match char with
    | '"' | '\\' | '/' => some (char, rest)
    | 'b' => some ('\x08', rest)
    | 'f' => some ('\x0c', rest)
    | 'n' => some ('\n', rest)
    | 'r' => some ('\r', rest)
    | 't' => some ('\t', rest)
    | 'u' => escapedUnit? purpose rest
    | _ => none

/-- The characters of a string of at most `size` characters; its opening quote is behind. -/
def stringChars (purpose : Purpose) : Nat → List Char → Option (List Char × List Char)
  | 0, _ => none
  | _ + 1, [] => none
  | size + 1, char :: rest =>
    if char = '"' then some ([], rest)
    else if char = '\\' then do
      let (first, rest) ← escaped? purpose rest
      let (more, rest) ← stringChars purpose size rest
      some (first :: more, rest)
    else if char.toNat < 0x20 then none
    else do
      let (more, rest) ← stringChars purpose size rest
      some (char :: more, rest)

/-- A string; its opening quote is behind. -/
def stringBody (purpose : Purpose) (text : List Char) : Option (String × List Char) :=
  (stringChars purpose text.length text).map fun (chars, rest) => (String.ofList chars, rest)

/-! ### Numbers -/

/-- The digits after the point, if there is one. -/
def fraction? : List Char → Option (List Char × List Char)
  | '.' :: rest =>
    let digits := rest.takeWhile Char.isDigit
    if digits.isEmpty then none else some (digits, rest.drop digits.length)
  | rest => some ([], rest)

/-- The exponent, if there is one. -/
def exponent? : List Char → Option (Option Int × List Char)
  | [] => some (none, [])
  | char :: rest =>
    if char = 'e' ∨ char = 'E' then
      let (negative, unsigned) := match rest with
        | '-' :: rest => (true, rest)
        | '+' :: rest => (false, rest)
        | _ => (false, rest)
      let digits := unsigned.takeWhile Char.isDigit
      if digits.isEmpty then none
      else
        let size : Int := digitsValue digits
        some (some (if negative then -size else size), unsigned.drop digits.length)
    else some (none, char :: rest)

/-- A number. -/
def number? (purpose : Purpose) (text : List Char) : Option (Json × List Char) := do
  let (negative, unsigned) := match text with
    | '-' :: rest => (true, rest)
    | _ => (false, text)
  let whole := unsigned.takeWhile Char.isDigit
  if whole.isEmpty ∨ (whole.head? = some '0' ∧ 1 < whole.length) then none
  else
    let (fraction, rest) ← fraction? (unsigned.drop whole.length)
    let (exponent, rest) ← exponent? rest
    let scaled := Scaled.ofDigits whole fraction (exponent.getD 0)
    if purpose = .keep ∧ scaled.inRange = false then none
    else if negative ∨ !fraction.isEmpty ∨ exponent.isSome then
      some (.decimal (String.ofList (text.take (text.length - rest.length))), rest)
    else some (.natural (digitsValue whole), rest)

/-! ### Values -/

/-- One or more items and the closing bracket. -/
def items (nested : List Char → Option (Json × List Char)) :
    Nat → List Char → Option (List Json × List Char)
  | 0, _ => none
  | size + 1, text => do
    let (first, rest) ← nested text
    match skipSpace rest with
    | ',' :: rest =>
      let (more, rest) ← items nested size rest
      some (first :: more, rest)
    | ']' :: rest => some ([first], rest)
    | _ => none

/-- One or more members and the closing brace. How a value is read may depend on its key. -/
def members (keys : Purpose) (nested : String → List Char → Option (Json × List Char)) :
    Nat → List Char → Option (List (String × Json) × List Char)
  | 0, _ => none
  | size + 1, text =>
    match skipSpace text with
    | '"' :: rest => do
      let (key, rest) ← stringBody keys rest
      match skipSpace rest with
      | ':' :: rest =>
        let (value, rest) ← nested key rest
        match skipSpace rest with
        | ',' :: rest =>
          let (more, rest) ← members keys nested size rest
          some ((key, value) :: more, rest)
        | '}' :: rest => some ([(key, value)], rest)
        | _ => none
      | _ => none
    | _ => none

/-- The items of an array; its opening bracket is behind. -/
def arrayBody (nested : List Char → Option (Json × List Char)) (text : List Char) :
    Option (List Json × List Char) :=
  match skipSpace text with
  | ']' :: rest => some ([], rest)
  | _ => items nested text.length text

/-- The members of an object; its opening brace is behind. -/
def objectBody (keys : Purpose) (nested : String → List Char → Option (Json × List Char))
    (text : List Char) : Option (List (String × Json) × List Char) :=
  match skipSpace text with
  | '}' :: rest => some ([], rest)
  | _ => members keys nested text.length text

/-- A word of JSON. -/
def word? (word : String) (value : Json) (text : List Char) : Option (Json × List Char) :=
  if word.toList.isPrefixOf text then some (value, text.drop word.length) else none

/-- The value at the front of a text, with at most `depth` arrays and objects inside each other. -/
def value (purpose : Purpose) : Nat → List Char → Option (Json × List Char)
  | depth, text =>
    match skipSpace text, depth with
    | '"' :: rest, _ => (stringBody purpose rest).map fun (value, rest) => (.string value, rest)
    | '[' :: rest, depth + 1 =>
      (arrayBody (value purpose depth) rest).map fun (items, rest) => (.array items, rest)
    | '{' :: rest, depth + 1 =>
      (objectBody purpose (fun _ => value purpose depth) rest).map fun (members, rest) =>
        (.object members, rest)
    | 't' :: rest, _ => word? "true" (.bool true) ('t' :: rest)
    | 'f' :: rest, _ => word? "false" (.bool false) ('f' :: rest)
    | 'n' :: rest, _ => word? "null" .null ('n' :: rest)
    | text, _ => number? purpose text

/-- How many arrays and objects may stand inside each other in a value that is kept. -/
def nestingLimit : Nat := 127

/-- Whether nothing but whitespace is left. -/
def atEnd (rest : List Char) : Bool :=
  (skipSpace rest).isEmpty

/-- A whole text as one value, nested at most `depth` deep. -/
def parse? (depth : Nat) (text : String) : Option Json := do
  let (value, rest) ← value .keep depth text.toList
  if atEnd rest then some value else none

end TagMigration.Json
