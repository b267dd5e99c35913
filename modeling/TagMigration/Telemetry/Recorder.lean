/-
What the probes of a running application do. A probe asks the registry of components
whether it knows a name, and notes the name down if it does. The notes keep identities as
the probes spell them; they come out as an aggregate, in normal form.
-/
import TagMigration.Telemetry.Aggregate

namespace TagMigration

/-- The usages noted down so far. -/
structure Recorder where
  usages : List Usage
deriving DecidableEq, Repr

namespace Recorder

/-- Nothing noted. -/
def empty : Recorder := ⟨[]⟩

/-- Notes a name down as used in a template. -/
def record (recorder : Recorder) (identity name : String) : Recorder :=
  ⟨Usage.insert (identity, name) recorder.usages⟩

/-- What has been noted, as telemetry. -/
def snapshot (recorder : Recorder) : Aggregate :=
  recorder.usages.foldl (fun aggregate (identity, name) => aggregate.record identity name) .empty

/-- What has been noted, as telemetry, and a recorder that starts anew. -/
def flush (recorder : Recorder) : Aggregate × Recorder :=
  (recorder.snapshot, empty)

/-- Asks a registry whether a name is a component and notes it down if so. -/
def probe (recorder : Recorder) (registry : List String) (name identity : String) :
    Bool × Recorder :=
  if registry.contains name then (true, recorder.record identity name) else (false, recorder)

end Recorder

end TagMigration
