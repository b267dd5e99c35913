/-
The helper module that probes call. It looks a name up among the components of the running
application and notes it down under the template's identity. Its source is fixed, and checked
with whatever parser of modules there is. It is written to a staging file first and then moved
into place, and left alone if it is already there.
-/
import TagMigration.Digest.Sha256
import TagMigration.Project.Config

namespace TagMigration

/-- A parser of modules. It says of a text that it can parse whether it has a default export. -/
class Helper.Parser where
  hasDefaultExport? : String → Option Bool

namespace Helper

/-- The lines of the helper module. -/
def lines : List String :=
  ["import \x7b getOwner \x7d from '@ember/application';",
    "import Helper from '@ember/component/helper';",
    "",
    "const usage = (globalThis.__componentProbeUsage__ = " ++
      "globalThis.__componentProbeUsage__ || \x7b\x7d);",
    "",
    "export default Helper.extend(\x7b",
    "  compute([name, identity]) \x7b",
    "    if (name && typeof name === 'object' && name.name) \x7b",
    "      name = name.name;",
    "    \x7d",
    "",
    "    const isComponent = !!getOwner(this).lookup(`component:$\x7bname\x7d`);",
    "",
    "    if (isComponent) \x7b",
    "      const names = usage[identity] || (usage[identity] = []);",
    "      if (!names.includes(name)) \x7b",
    "        names.push(name);",
    "      \x7d",
    "    \x7d",
    "",
    "    return isComponent;",
    "  \x7d,",
    "\x7d);"]

/-- The source of the helper module. -/
def source : String :=
  String.ofList (lines.flatMap fun line => line.toList ++ ['\n'])

/-- Whether a text can be a helper module: it has to be a module with a default export. -/
def check [Parser] (text : String) : Except Error Unit :=
  match Parser.hasDefaultExport? text with
  | none => .error (.helper .doesNotParse)
  | some false => .error (.helper .noDefaultExport)
  | some true => .ok ()

/-- The bytes of the helper module. -/
def content : ByteArray := source.toUTF8

/-- Whether the helper had to be written. -/
inductive Status where
  | written
  | unchanged
deriving DecidableEq, Repr

/-- What became of the helper. -/
structure Outcome where
  path : Path
  status : Status
  digest : String
deriving DecidableEq, Repr

/-- An outcome as JSON. -/
def Outcome.toJson (outcome : Outcome) : Json :=
  .object [("path", .string outcome.path.text),
    ("status", .string (match outcome.status with
      | .written => "written"
      | .unchanged => "unchanged")),
    ("digest", .string outcome.digest)]

/-- The path of the staging file, next to the helper. -/
def stagingPath (process : Nat) (path : Path) : Path :=
  path.withFileName ("." ++ path.fileName?.getD "" ++ "." ++ toString process ++ ".tmp")

/-- Whether the file at a path has the content of the helper, going by its digest. -/
def isCurrent (files : Workspace) (path : Path) : Bool :=
  match files.read path with
  | .ok existing => Sha256.hex existing == Sha256.hex content
  | .error _ => false

/-- Creates the directories that lead to a path. -/
def prepare (files : Workspace) (path : Path) : Except Error Unit × Workspace :=
  match path.parent? with
  | none => (.ok (), files)
  | some parent =>
    match files.createDirectories (parent.text.length + 1) parent with
    | (.ok (), files) => (.ok (), files)
    | (.error fault, files) => (.error (.file parent.text fault), files)

/-- Writes the helper to a staging file and moves it into place. A staging file that cannot be moved
is removed again, but not one that could not be written to its end. -/
def place (files : Workspace) (path : Path) : Except Error Unit × Workspace :=
  let staged := stagingPath files.process path
  match files.write staged content with
  | (.error fault, files) => (.error (.file staged.text fault), files)
  | (.ok (), files) =>
    match files.moveFile staged path with
    | .ok files => (.ok (), files)
    | .error fault => (.error (.file path.text fault), (files.remove staged).2)

/-- Puts the helper in place, unless it is there. -/
def install (config : Config) (files : Workspace) : Except Error Outcome × Workspace :=
  let path := config.helperFile
  let digest := Sha256.hex content
  if isCurrent files path then (.ok ⟨path, .unchanged, digest⟩, files)
  else
    match prepare files path with
    | (.error error, files) => (.error error, files)
    | (.ok (), files) =>
      match place files path with
      | (.error error, files) => (.error error, files)
      | (.ok (), files) => (.ok ⟨path, .written, digest⟩, files)

/-- Writes the helper module of a project, if its source passes the check. -/
def write [Parser] (config : Config) (files : Workspace) : Except Error Outcome × Workspace :=
  match check source with
  | .error error => (.error error, files)
  | .ok () => install config files

end Helper

end TagMigration
