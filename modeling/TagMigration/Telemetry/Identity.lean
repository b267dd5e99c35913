/-
Template identities. A template is known by its path, and different tools spell paths
differently; the normal form of an identity has forward slashes and no leading `./`.
Telemetry is joined with templates by normal forms.
-/

namespace TagMigration.Identity

/-- The text without its leading `./`, however often it is repeated. -/
def dropHere : List Char → List Char
  | '.' :: '/' :: rest => dropHere rest
  | text => text

/-- A slash for a backslash. -/
def slashed (char : Char) : Char :=
  if char = '\\' then '/' else char

/-- The normal form of an identity. -/
def normalise (identity : String) : String :=
  String.ofList (dropHere (identity.toList.map slashed))

end TagMigration.Identity
