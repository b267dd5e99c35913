/-
Telemetry as a map of sets. Under each identity that the map has stands a set of names. Nothing in
the map keeps such a set from being empty, nor an identity from being spelled in another way than in
normal form; that depends on what is entered.
-/
import Mathlib.Data.Finset.Basic
import Mathlib.Data.Finset.Dedup
import TagMigration.Telemetry.Aggregate

namespace TagMigration

/-- Sets of names by template identity. -/
@[ext]
structure NameSets where
  sets : String → Option (Finset String)

namespace NameSets

/-- No identity. -/
def empty : NameSets := ⟨fun _ => none⟩

/-- The names under an identity, none if the map does not have it. -/
def names (map : NameSets) (identity : String) : Finset String :=
  (map.sets identity).getD ∅

/-- Puts a name under the normal form of an identity. -/
def record (map : NameSets) (identity name : String) : NameSets :=
  ⟨fun key =>
    if key = Identity.normalise identity then some (insert name (map.names key))
    else map.sets key⟩

/-- Puts all names of a datalet under their identities. -/
def addDatalet (map : NameSets) (datalet : Datalet) : NameSets :=
  datalet.foldl (fun map (identity, names) =>
    names.foldl (fun map name => map.record identity name) map) map

/-- Puts all names of another map under their identities. -/
def merge (map other : NameSets) : NameSets :=
  ⟨fun key =>
    match other.sets key with
    | some more => some (map.names key ∪ more)
    | none => map.sets key⟩

/-- The names confirmed in a template. -/
def confirmedFor (map : NameSets) (identity : String) : Finset String :=
  map.names (Identity.normalise identity)

end NameSets

/-- The map that an aggregate stands for. -/
def Aggregate.nameSets (aggregate : Aggregate) : NameSets :=
  ⟨fun identity => (aggregate.toDatalet.lookup identity).map List.toFinset⟩

end TagMigration
