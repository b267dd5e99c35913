/-
JSON values. Objects keep their members in the order in which they are written and
may hold a key twice; which of two members counts is for the reader of a shape to say.
A number that is written as plain digits is its value; any other number is kept as it
is written, because nothing here computes with it.
-/

namespace TagMigration

/-- A JSON value. -/
inductive Json where
  | null
  | bool (value : Bool)
  | natural (value : Nat)
  | decimal (written : String)
  | string (value : String)
  | array (items : List Json)
  | object (members : List (String × Json))

namespace Json

/-! ### Depth -/

mutual

/-- How many arrays and objects stand inside each other, the value itself counted. -/
def depth : Json → Nat
  | .array items => itemsDepth items + 1
  | .object members => membersDepth members + 1
  | .null => 1
  | .bool _ => 1
  | .natural _ => 1
  | .decimal _ => 1
  | .string _ => 1

/-- The depth of the deepest item. -/
def itemsDepth : List Json → Nat
  | [] => 0
  | item :: rest => max item.depth (itemsDepth rest)

/-- The depth of the deepest member. -/
def membersDepth : List (String × Json) → Nat
  | [] => 0
  | (_, value) :: rest => max value.depth (membersDepth rest)

end

/-! ### Taking values apart -/

/-- The member of an object with a given key. -/
def field? (key : String) : Json → Option Json
  | .object members => (members.find? fun member => member.1 == key).map (·.2)
  | _ => none

/-- The value of a string. -/
def string? : Json → Option String
  | .string value => some value
  | _ => none

/-- The value of a boolean. -/
def bool? : Json → Option Bool
  | .bool value => some value
  | _ => none

/-- The value of a natural number. -/
def natural? : Json → Option Nat
  | .natural value => some value
  | _ => none

/-- The items of an array. -/
def array? : Json → Option (List Json)
  | .array items => some items
  | _ => none

/-- The values of an array of strings. -/
def strings? (json : Json) : Option (List String) := do
  (← json.array?).mapM string?

/-! ### Putting values together -/

/-- An array of strings. -/
def strings (values : List String) : Json :=
  .array (values.map .string)

/-- A value or `null`. -/
def ofOption {α : Type} (encode : α → Json) : Option α → Json
  | some value => encode value
  | none => .null

end Json

end TagMigration
