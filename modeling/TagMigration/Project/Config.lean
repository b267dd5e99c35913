/-
Configuration of a project: where its root is, where the helper module goes, which files
are templates, and whether a file is written back even if nothing changed. A template is
known to telemetry by its path from the project root.
-/
import TagMigration.Json.Reader
import TagMigration.Project.Workspace
import TagMigration.Telemetry.Identity

namespace TagMigration

/-- The configuration of a project. -/
structure Config where
  projectRoot : Path
  helperPath : Path
  extensions : List String
  writeUnchanged : Bool
deriving DecidableEq, Repr

namespace Config

/-- The configuration of a project that has no configuration file. -/
def default : Config :=
  ⟨⟨"."⟩, ⟨"app/helpers/-probe-is-component.js"⟩, ["hbs"], false⟩

/-- The name under which a configuration file is looked for. -/
def fileName : String := "codemod.json"

/-! ### Paths of a project -/

/-- Where the helper module goes. -/
def helperFile (config : Config) : Path :=
  config.projectRoot.join config.helperPath

/-- Whether a file is a template, going by its extension. -/
def isEligible (config : Config) (path : Path) : Bool :=
  match path.extension? with
  | some ending => config.extensions.contains ending
  | none => false

/-- The identity of the template at a path: the path from the project root, in normal form. -/
def identityFor (config : Config) (path : Path) : String :=
  Identity.normalise ((path.strip? config.projectRoot).getD path).text

/-- The path of the template with an identity. -/
def resolve (config : Config) (identity : String) : Path :=
  if (Path.mk identity).isAbsolute then ⟨identity⟩ else config.projectRoot.join ⟨identity⟩

/-! ### Configuration files -/

/-- The names of the fields, in order. -/
def fieldNames : List String :=
  ["projectRoot", "helperPath", "extensions", "writeUnchanged"]

/-- The configuration with the named field set. A name of no field changes nothing. -/
def setField? (config : Config) (name : String) (value : Json) : Option Config :=
  if name = "projectRoot" then do some { config with projectRoot := ⟨← value.string?⟩ }
  else if name = "helperPath" then do some { config with helperPath := ⟨← value.string?⟩ }
  else if name = "extensions" then do some { config with extensions := ← value.strings? }
  else if name = "writeUnchanged" then do some { config with writeUnchanged := ← value.bool? }
  else some config

/-- The configuration with all given fields set. -/
def setFields? (config : Config) : List (String × Json) → Option Config
  | [] => some config
  | (name, value) :: rest => do setFields? (← config.setField? name value) rest

/-- Whether some field is given twice. -/
def hasRepeatedField (members : List (String × Json)) : Bool :=
  fieldNames.any fun name => 1 < (members.filter fun member => member.1 == name).length

/-- A configuration from the members of an object. Missing fields have their defaults and unknown
ones are passed over; a repeated field is refused. -/
def ofMembers? (members : List (String × Json)) : Option Config :=
  if hasRepeatedField members then none else default.setFields? members

/-- A configuration from the items of an array, which give the fields in order. -/
def ofItems? (items : List Json) : Option Config :=
  if fieldNames.length < items.length then none else default.setFields? (fieldNames.zip items)

/-- A configuration from the text of a file. The values of unknown fields are only skipped. -/
def ofText? (text : String) : Option Config :=
  let chars := text.toList
  let field (name : String) : List Char → Option (Json × List Char) :=
    if fieldNames.contains name then Json.value .keep (Json.nestingLimit - 1)
    else Json.value .skip chars.length
  match Json.skipSpace chars with
  | '{' :: rest => do
    let (members, rest) ← Json.objectBody .keep field rest
    if Json.atEnd rest then ofMembers? members else none
  | '[' :: rest => do
    let (items, rest) ← Json.arrayBody (Json.value .keep (Json.nestingLimit - 1)) rest
    if Json.atEnd rest then ofItems? items else none
  | _ => none

/-- A configuration as JSON. -/
def toJson (config : Config) : Json :=
  .object [("projectRoot", .string config.projectRoot.text),
    ("helperPath", .string config.helperPath.text), ("extensions", .strings config.extensions),
    ("writeUnchanged", .bool config.writeUnchanged)]

/-- The configuration in a file. -/
def load (files : Workspace) (path : Path) : Except Error Config := do
  match ofText? (← files.readText path) with
  | some config => .ok config
  | none => .error (.config path.text)

/-- The configuration in the file at `path`; without a path, that in the file of the usual name,
or the default if there is no such file. -/
def discover (files : Workspace) (path : Option Path) : Except Error Config :=
  match path with
  | some path => load files path
  | none => if files.isFile ⟨fileName⟩ then load files ⟨fileName⟩ else .ok default

end Config

end TagMigration
