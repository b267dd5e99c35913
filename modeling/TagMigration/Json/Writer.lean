/-
Writing JSON: on one line, or with every item and member on a line of its own,
indented by two blanks a level.
-/
import TagMigration.Json.Value

namespace TagMigration.Json

/-! ### Strings -/

/-- A hexadecimal digit. -/
def hexChar (digit : Nat) : Char :=
  if digit < 10 then Char.ofNat ('0'.toNat + digit) else Char.ofNat ('a'.toNat + digit - 10)

/-- A character inside a string. Quotes, backslashes and control characters are escaped. -/
def quotedChar (char : Char) : String :=
  if char = '"' then "\\\""
  else if char = '\\' then "\\\\"
  else if char = '\n' then "\\n"
  else if char = '\r' then "\\r"
  else if char = '\t' then "\\t"
  else if char = '\x08' then "\\b"
  else if char = '\x0c' then "\\f"
  else if char.toNat < 0x20 then
    String.ofList ['\\', 'u', '0', '0', hexChar (char.toNat / 16), hexChar (char.toNat % 16)]
  else char.toString

/-- A string in quotes. -/
def quoted (text : String) : String :=
  "\"" ++ String.join (text.toList.map quotedChar) ++ "\""

/-! ### Values -/

mutual

/-- A value on one line. -/
def compact : Json → String
  | .null => "null"
  | .bool true => "true"
  | .bool false => "false"
  | .natural value => toString value
  | .decimal written => written
  | .string value => quoted value
  | .array items => "[" ++ ",".intercalate (compactItems items) ++ "]"
  | .object members => "\x7b" ++ ",".intercalate (compactMembers members) ++ "\x7d"

/-- The items of an array, each on one line. -/
def compactItems : List Json → List String
  | [] => []
  | item :: rest => item.compact :: compactItems rest

/-- The members of an object, each on one line. -/
def compactMembers : List (String × Json) → List String
  | [] => []
  | (key, value) :: rest => (quoted key ++ ":" ++ value.compact) :: compactMembers rest

end

/-- Pieces between two brackets, each on a line of its own; without pieces, only the brackets. -/
def onLines (opening closing indent : String) (pieces : List String) : String :=
  if pieces.isEmpty then opening ++ closing
  else
    let inner := "\n" ++ indent ++ "  "
    opening ++ inner ++ ("," ++ inner).intercalate pieces ++ "\n" ++ indent ++ closing

mutual

/-- A value on several lines; `indent` stands in front of each line but the first. -/
def prettyAt (indent : String) : Json → String
  | .array items => onLines "[" "]" indent (prettyItems (indent ++ "  ") items)
  | .object members =>
    onLines "\x7b" "\x7d" indent (prettyMembers (indent ++ "  ") members)
  | .null => "null"
  | .bool true => "true"
  | .bool false => "false"
  | .natural value => toString value
  | .decimal written => written
  | .string value => quoted value

/-- The items of an array on several lines. -/
def prettyItems (indent : String) : List Json → List String
  | [] => []
  | item :: rest => item.prettyAt indent :: prettyItems indent rest

/-- The members of an object on several lines. -/
def prettyMembers (indent : String) : List (String × Json) → List String
  | [] => []
  | (key, value) :: rest =>
    (quoted key ++ ": " ++ value.prettyAt indent) :: prettyMembers indent rest

end

/-- A value on several lines. -/
def pretty (json : Json) : String :=
  json.prettyAt ""

end TagMigration.Json
