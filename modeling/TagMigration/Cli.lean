/-
The command line as a function: arguments and files in, exit code, report and files out.
Options may stand before or after the name of the command; one that stands after it counts
more. An option is given at most once before and once after the name, a value is never
empty, and what follows `--` is a path. Asking for help takes no options.

The program checks the source of the helper with the recogniser of modules, which accepts it.
-/
import TagMigration.Project.Run
import TagMigration.Script.Module

namespace TagMigration

/-! ### The parser of the program -/

/-- Modules are parsed by the recogniser of their grammar. -/
instance Helper.recogniser : Helper.Parser where
  hasDefaultExport? text :=
    (Script.Module.read? text.toList).map Script.Module.hasDefaultExport

/-- The source of the helper is a module with a default export. -/
theorem Helper.check_source : Helper.check Helper.source = .ok () := by
  have accepted : (Script.Module.read? Helper.source.toList).map
      Script.Module.hasDefaultExport = some true := by
    rw [Helper.source, String.toList_ofList]
    decide +kernel
  rw [Helper.check, show Helper.Parser.hasDefaultExport? Helper.source = some true from accepted]

namespace Cli

/-! ### Arguments -/

/-- The options that every command takes. -/
structure Options where
  config : Option Path
  projectRoot : Option Path
  writeUnchanged : Bool
  json : Bool
deriving DecidableEq, Repr

/-- No option given. -/
def Options.none : Options := ⟨.none, .none, false, false⟩

/-- Options given before the command's name, overridden by those after it. -/
def Options.override (outer inner : Options) : Options :=
  ⟨inner.config.or outer.config, inner.projectRoot.or outer.projectRoot,
    outer.writeUnchanged || inner.writeUnchanged, outer.json || inner.json⟩

/-- What the program is asked to do. -/
inductive Command where
  | instrument (paths : List Path)
  | migrate (telemetry : Path) (paths : List Path)
  | strip (paths : List Path)
deriving DecidableEq, Repr

/-- Why arguments ask for no command: they ask for help, or they are wrong. -/
inductive Refusal where
  | help
  | usage
deriving DecidableEq, Repr

/-- One argument, or an option with its value. -/
inductive Token where
  | writeUnchanged
  | json
  | config (path : Path)
  | projectRoot (path : Path)
  | telemetry (path : Path)
  | word (text : String)
deriving DecidableEq, Repr

/-- A path as an argument: it is not empty. -/
def argumentPath (text : String) : Except Refusal Path :=
  if text.isEmpty then .error .usage else .ok ⟨text⟩

/-- Whether an argument can be the value of an option or a path of its own. -/
def isWord (argument : String) : Bool :=
  argument == "-" || !(['-'].isPrefixOf argument.toList)

/-- The option with a value that a name stands for. -/
def valueOption? (name : String) : Option (Path → Token) :=
  if name = "--config" then some .config
  else if name = "--project-root" then some .projectRoot
  else if name = "--telemetry" then some .telemetry
  else none

/-- The option without a value that a name stands for. -/
def flag? (name : String) : Option Token :=
  if name = "--write-unchanged" then some .writeUnchanged
  else if name = "--json" then some .json
  else none

/-- The next token of the arguments, and the arguments after it. -/
def token (argument : String) (rest : List String) : Except Refusal (Token × List String) :=
  if isWord argument then .ok (.word argument, rest)
  else if ['-', 'h'].isPrefixOf argument.toList ∨ argument = "--help" then .error .help
  else
    match flag? argument, valueOption? argument, rest with
    | some token, _, _ => .ok (token, rest)
    | none, some option, value :: rest =>
      if isWord value then do .ok (option (← argumentPath value), rest) else .error .usage
    | none, some _, [] => .error .usage
    | none, none, _ =>
      let name := String.ofList (argument.toList.takeWhile (· != '='))
      let value := String.ofList (argument.toList.drop (name.length + 1))
      match valueOption? name with
      | some option => do .ok (option (← argumentPath value), rest)
      | none => .error .usage

/-- The options with one more, unless it has been given. -/
def Options.add (options : Options) : Token → Except Refusal Options
  | .writeUnchanged =>
    if options.writeUnchanged then .error .usage
    else .ok { options with writeUnchanged := true }
  | .json => if options.json then .error .usage else .ok { options with json := true }
  | .config path =>
    if options.config.isSome then .error .usage else .ok { options with config := some path }
  | .projectRoot path =>
    if options.projectRoot.isSome then .error .usage
    else .ok { options with projectRoot := some path }
  | .telemetry _ => .error .usage
  | .word _ => .error .usage

/-- What stands after the name of a command. -/
structure Arguments where
  options : Options
  telemetry : Option Path
  paths : List Path
deriving DecidableEq, Repr

/-- The arguments after the name of a command. Only some commands take telemetry. -/
def arguments (takesTelemetry : Bool) :
    Nat → Arguments → List String → Except Refusal Arguments
  | 0, given, _ => .ok given
  | _, given, [] => .ok given
  | size + 1, given, argument :: rest => do
    if argument = "--" then
      .ok { given with paths := given.paths ++ (← rest.mapM argumentPath) }
    else
      match ← token argument rest with
      | (.word text, rest) =>
        let path ← argumentPath text
        arguments takesTelemetry size { given with paths := given.paths ++ [path] } rest
      | (.telemetry path, rest) =>
        if takesTelemetry && given.telemetry.isNone then
          arguments takesTelemetry size { given with telemetry := some path } rest
        else .error .usage
      | (option, rest) =>
        arguments takesTelemetry size { given with options := ← given.options.add option } rest

/-- The names of the commands. -/
def commandNames : List String := ["instrument", "rewrite", "strip", "help"]

/-- What a request for help comes to: it is about the program or about one command. -/
def helpRequest : List String → Refusal
  | [] => .help
  | [topic] => if commandNames.contains topic then .help else .usage
  | _ :: _ :: _ => .usage

/-- The command with a given name and what stands after the name. -/
def command (name : String) (outer : Options) (rest : List String) :
    Except Refusal (Options × Command) := do
  let read (takesTelemetry : Bool) : Except Refusal Arguments :=
    arguments takesTelemetry rest.length ⟨.none, none, []⟩ rest
  if name = "instrument" then
    let given ← read false
    if given.paths.isEmpty then .error .usage
    else .ok (outer.override given.options, .instrument given.paths)
  else if name = "strip" then
    let given ← read false
    if given.paths.isEmpty then .error .usage
    else .ok (outer.override given.options, .strip given.paths)
  else if name = "rewrite" then
    let given ← read true
    match given.telemetry with
    | none => .error .usage
    | some telemetry => .ok (outer.override given.options, .migrate telemetry given.paths)
  else if name = "help" then .error (helpRequest rest)
  else .error .usage

/-- What the arguments ask for, given the options read so far. -/
def parseFrom : Nat → Options → List String → Except Refusal (Options × Command)
  | 0, _, _ => .error .usage
  | _, _, [] => .error .usage
  | size + 1, options, argument :: rest => do
    match ← token argument rest with
    | (.word name, rest) => command name options rest
    | (option, rest) => parseFrom size (← options.add option) rest

/-- What the arguments ask for. -/
def parse (given : List String) : Except Refusal (Options × Command) :=
  parseFrom given.length .none given

/-! ### Running -/

/-- The configuration with the options of the command line in force. -/
def Options.apply (options : Options) (config : Config) : Config :=
  { config with
    projectRoot := options.projectRoot.getD config.projectRoot
    writeUnchanged := options.writeUnchanged || config.writeUnchanged }

/-- Carries out a command. -/
def Command.run (config : Config) (files : Workspace) :
    Command → Except Error (RunReport × Workspace)
  | .instrument paths => .ok (Run.instrument config files paths)
  | .strip paths => .ok (Run.strip config files paths)
  | .migrate telemetry paths => do
    let aggregate ← Aggregate.ofText (← files.readText telemetry)
    if paths.isEmpty then .ok (Run.migrateReported config aggregate files)
    else .ok (Run.migrate config aggregate files paths)

/-- How a run of the program ends: with a report, with an error before any file was processed, or
without doing anything. -/
inductive Ending where
  | finished (options : Options) (report : RunReport)
  | stopped (error : Error)
  | refused (refusal : Refusal)

/-- The exit code of the program. -/
def Ending.exitCode : Ending → Nat
  | .finished _ report => if report.hasFailures then 1 else 0
  | .stopped _ => 1
  | .refused .help => 0
  | .refused .usage => 2

/-- The report that is printed, if it was asked for. -/
def Ending.printed? : Ending → Option RunReport
  | .finished options report => if options.json then some report else none
  | .stopped _ => none
  | .refused _ => none

/-- What is told about a file. -/
def fileMessage (file : FileReport) : String :=
  let status := match file.status with
    | .written => "written"
    | .unchanged => "unchanged"
    | .skipped => "skipped"
    | .failed error => "failed (" ++ error.message ++ ")"
  file.path.text ++ ": " ++ status ++ ", " ++ toString file.changes ++ " changes"

/-- What is told about a run, line by line, apart from its report. -/
def Ending.messages : Ending → List String
  | .finished _ report =>
    report.files.map fileMessage ++
      [toString report.written ++ " written, " ++ toString report.unchanged ++ " unchanged, " ++
        toString report.skipped ++ " skipped, " ++ toString report.failed ++ " failed"]
  | .stopped error => [error.message]
  | .refused _ =>
    ["Usage: codemod [OPTIONS] instrument <PATHS>...",
      "       codemod [OPTIONS] rewrite --telemetry <FILE> [PATHS]...",
      "       codemod [OPTIONS] strip <PATHS>...",
      "Options: --config <FILE>, --project-root <DIR>, --write-unchanged, --json"]

/-- The templates that telemetry mentions, as far as the telemetry can be read. -/
def mentioned (config : Config) (files : Workspace) (telemetry : Path) : List Path :=
  match files.readText telemetry with
  | .error _ => []
  | .ok text =>
    match Aggregate.ofText text with
    | .error _ => []
    | .ok aggregate => aggregate.identities.map config.resolve

/-- The paths that a command looks at. -/
def Command.needs (config : Config) (files : Workspace) : Command → List Path
  | .instrument paths => config.helperFile :: paths
  | .strip paths => paths
  | .migrate telemetry paths =>
    telemetry :: if paths.isEmpty then mentioned config files telemetry else paths

/-- The paths that a run looks at, as far as the files that are known tell: first the
configuration, then what it and the arguments name, then what telemetry mentions. -/
def needs (given : List String) (files : Workspace) : List Path :=
  match parse given with
  | .error _ => []
  | .ok (options, command) =>
    options.config.getD ⟨Config.fileName⟩ ::
      match Config.discover files options.config with
      | .error _ => []
      | .ok config => command.needs (options.apply config) files

/-- The number of times that `needs` can name more paths than before. -/
def needsRounds : Nat := 3

/-- Runs the program. -/
def run (given : List String) (files : Workspace) : Ending × Workspace :=
  match parse given with
  | .error refusal => (.refused refusal, files)
  | .ok (options, command) =>
    match Config.discover files options.config with
    | .error error => (.stopped error, files)
    | .ok config =>
      match command.run (options.apply config) files with
      | .error error => (.stopped error, files)
      | .ok (report, files) => (.finished options report, files)

end Cli

end TagMigration
