/-
Telemetry: which names the running application has confirmed to be components, and in
which template. That is a set of pairs of a template's identity, in normal form, and a
name. The set is kept as a list in increasing order, so two aggregates that hold the same
pairs are the same value, whatever the order in which the pairs arrived.
-/
import TagMigration.Error
import TagMigration.Json.Reader
import TagMigration.Telemetry.Identity

namespace TagMigration

/-- A template identity and a name used in that template. -/
abbrev Usage := String × String

namespace Usage

/-- The order of usages: by identity, then by name, each by code points. -/
def before (first second : Usage) : Bool :=
  first.1 < second.1 || (first.1 == second.1 && first.2 < second.2)

/-- The increasing list with one more usage. -/
def insert (usage : Usage) : List Usage → List Usage
  | [] => [usage]
  | head :: rest =>
    if usage == head then head :: rest
    else if before usage head then usage :: head :: rest
    else head :: insert usage rest

/-- A usage is in the list after insertion exactly if it was there or is the inserted one. -/
theorem mem_insert {usage other : Usage} {usages : List Usage} :
    other ∈ insert usage usages ↔ other = usage ∨ other ∈ usages := by
  induction usages with
  | nil => simp [insert]
  | cons head rest inductionHypothesis =>
    rw [insert]
    split
    · next equal => simp [eq_of_beq equal]
    · split
      · simp
      · simp only [List.mem_cons, inductionHypothesis]
        constructor <;> rintro (first | second | third) <;> simp_all

end Usage

/-! ### Aggregates -/

/-- A set of usages whose identities are in normal form, in increasing order. -/
structure Aggregate where
  usages : List Usage
deriving DecidableEq, Repr

/-- What one report of the application says: names by template identity. -/
abbrev Datalet := List (String × List String)

namespace Aggregate

/-- Nothing confirmed. -/
def empty : Aggregate := ⟨[]⟩

/-- Confirms a name in a template. -/
def record (aggregate : Aggregate) (identity name : String) : Aggregate :=
  ⟨Usage.insert (Identity.normalise identity, name) aggregate.usages⟩

/-- Confirms all names of a datalet. -/
def addDatalet (aggregate : Aggregate) (datalet : Datalet) : Aggregate :=
  datalet.foldl (fun aggregate (identity, names) =>
    names.foldl (fun aggregate name => aggregate.record identity name) aggregate) aggregate

/-- Confirms all that another aggregate confirms. -/
def merge (aggregate other : Aggregate) : Aggregate :=
  ⟨other.usages.foldl (fun usages usage => Usage.insert usage usages) aggregate.usages⟩

/-- The names confirmed in a template, in increasing order. -/
def confirmedFor (aggregate : Aggregate) (identity : String) : List String :=
  let identity := Identity.normalise identity
  (aggregate.usages.filter fun usage => usage.1 == identity).map (·.2)

/-- The identities of increasing usages, each once. -/
def identitiesOf : List Usage → List String
  | [] => []
  | [usage] => [usage.1]
  | first :: second :: rest =>
    if first.1 == second.1 then identitiesOf (second :: rest)
    else first.1 :: identitiesOf (second :: rest)

/-- The templates with a confirmed name, in increasing order. -/
def identities (aggregate : Aggregate) : List String :=
  identitiesOf aggregate.usages

/-- The number of templates with a confirmed name. -/
def size (aggregate : Aggregate) : Nat :=
  aggregate.identities.length

/-- Whether nothing is confirmed. -/
def isEmpty (aggregate : Aggregate) : Bool :=
  aggregate.usages.isEmpty

/-- The names by template. -/
def toDatalet (aggregate : Aggregate) : Datalet :=
  aggregate.identities.map fun identity =>
    (identity, (aggregate.usages.filter fun usage => usage.1 == identity).map (·.2))

end Aggregate

/-! ### Telemetry files -/

namespace Datalet

/-- The members of an object, the last one where a key is repeated. -/
def lastMembers {α : Type} : List (String × α) → List (String × α)
  | [] => []
  | (key, value) :: rest =>
    if rest.any (·.1 == key) then lastMembers rest else (key, value) :: lastMembers rest

/-- A datalet from JSON: an object whose values are arrays of strings. -/
def ofJson? : Json → Option Datalet
  | .object members => do
    lastMembers (← members.mapM fun (key, value) => do some (key, ← value.strings?))
  | _ => none

/-- A datalet as JSON. -/
def toJson (datalet : Datalet) : Json :=
  .object (datalet.map fun (identity, names) => (identity, .strings names))

end Datalet

namespace Aggregate

/-- The datalets of a telemetry value: one object, or an array of objects. -/
def datalets? : Json → Option (List Datalet)
  | .array items => items.mapM Datalet.ofJson?
  | json => (Datalet.ofJson? json).map fun datalet => [datalet]

/-- The aggregate of a telemetry text. The shape of its value is looked at before what follows the
value. -/
def ofText (text : String) : Except Error Aggregate :=
  match Json.value .keep Json.nestingLimit text.toList with
  | none => .error (.telemetry .notJson)
  | some (json, rest) =>
    match datalets? json with
    | none => .error (.telemetry .wrongShape)
    | some datalets =>
      if Json.atEnd rest then .ok (datalets.foldl addDatalet empty)
      else .error (.telemetry .notJson)

end Aggregate

end TagMigration
