/-
Runs of a pass over the files of a project. The given paths are expanded to files; the
files are processed one after the other. A file is read, transformed and printed before
anything is written, so a file that fails stays as it was, unless its writing stops half-way;
and a failure never keeps the others from being processed. A run that instruments puts the
helper module in place before the first template; without it no template is touched.
-/
import TagMigration.Pass.TagForm
import TagMigration.Project.Report
import TagMigration.Reader.Content
import TagMigration.Telemetry.Aggregate
import TagMigration.Template.Printer

namespace TagMigration

/-! ### One template -/

/-- Reads a template, or tells why it cannot be read. -/
def Template.load (source identity : String) : Except Error Template :=
  match Template.read source identity with
  | .ok template => .ok template
  | .error fault => .error (.ofFault source identity fault)

/-- Prints a template, or tells why it cannot be printed. -/
def Template.render (template : Template) : Except Error String :=
  match template.print with
  | .ok text => .ok text
  | .error span => .error (.unprintable template.identity span template.source.utf8ByteSize)

namespace Run

/-- What a pass makes of a source text: the text after it, and the number of changes. -/
def transform (pass : Template → PassResult) (source identity : String) :
    Except Error (String × Nat) := do
  let result := pass (← Template.load source identity)
  .ok (← result.template.render, result.changes)

/-! ### Expanding paths -/

/-- The files that a path stands for: the templates below a directory, in order, or the path
itself. -/
def expandPath (config : Config) (files : Workspace) (path : Path) : List Path :=
  match files.directory? path with
  | none => [path]
  | some place =>
    (files.tree.below place).filterMap fun (names, entry) =>
      let found := names.foldl (fun path name => path.join ⟨name⟩) path
      match entry with
      | .file _ => if config.isEligible found then some found else none
      | .directory => none

/-- The files that paths stand for. -/
def expand (config : Config) (files : Workspace) (paths : List Path) : List Path :=
  paths.flatMap (expandPath config files)

/-! ### Processing files -/

/-- The entry of a file that is no template. -/
def skipped (config : Config) (path : Path) : FileReport :=
  .bare path (config.identityFor path) .skipped

/-- The entry of a file that failed. -/
def failed (config : Config) (path : Path) (error : Error) : FileReport :=
  .bare path (config.identityFor path) (.failed error)

/-- Runs a pass over a template file. -/
def processFile (config : Config) (pass : Template → PassResult) (files : Workspace)
    (path : Path) : FileReport × Workspace :=
  let identity := config.identityFor path
  match files.readText path with
  | .error error => (failed config path error, files)
  | .ok source =>
    match transform pass source identity with
    | .error error => (failed config path error, files)
    | .ok (code, changes) =>
      let report (status : FileStatus) : FileReport :=
        ⟨path, identity, status, changes, some (Sha256.hex source.toUTF8),
          some (Sha256.hex code.toUTF8)⟩
      if code = source ∧ config.writeUnchanged = false then (report .unchanged, files)
      else
        match files.write path code.toUTF8 with
        | (.error fault, files) => (failed config path (.file path.text fault), files)
        | (.ok (), files) => (report .written, files)

/-- Runs a pass, which may depend on the path, over files. -/
def processAll (config : Config) (pass : Path → Template → PassResult) (files : Workspace) :
    List Path → List FileReport × Workspace
  | [] => ([], files)
  | path :: rest =>
    let (report, files) :=
      if config.isEligible path then processFile config (pass path) files path
      else (skipped config path, files)
    let (reports, files) := processAll config pass files rest
    (report :: reports, files)

/-- What is known of the helper module during a run. -/
inductive HelperState where
  | pending
  | ready (outcome : Helper.Outcome)
  | broken (error : Error)

/-- Puts the helper in place if that has not been tried yet. -/
def HelperState.settle [Helper.Parser] (config : Config) (files : Workspace) :
    HelperState → HelperState × Workspace
  | .pending =>
    match Helper.write config files with
    | (.ok outcome, files) => (.ready outcome, files)
    | (.error error, files) => (.broken error, files)
  | state => (state, files)

/-- Instruments files. -/
def instrumentAll [Helper.Parser] (config : Config) (state : HelperState) (files : Workspace) :
    List Path → List FileReport × HelperState × Workspace
  | [] => ([], state, files)
  | path :: rest =>
    if config.isEligible path then
      let (state, files) := state.settle config files
      let (report, files) := match state with
        | .broken error => (failed config path error, files)
        | _ => processFile config Template.instrument files path
      let (reports, state, files) := instrumentAll config state files rest
      (report :: reports, state, files)
    else
      let (reports, state, files) := instrumentAll config state files rest
      (skipped config path :: reports, state, files)

/-- The outcome of the helper, if it is in place. -/
def HelperState.outcome? : HelperState → Option Helper.Outcome
  | .ready outcome => some outcome
  | .pending => none
  | .broken _ => none

end Run

/-! ### Runs -/

/-- Instruments the templates that paths stand for. -/
def Run.instrument [Helper.Parser] (config : Config) (files : Workspace) (paths : List Path) :
    RunReport × Workspace :=
  let (reports, state, files) := instrumentAll config .pending files (expand config files paths)
  (⟨.instrument, reports, state.outcome?⟩, files)

/-- Takes the probes out of the templates that paths stand for. -/
def Run.strip (config : Config) (files : Workspace) (paths : List Path) :
    RunReport × Workspace :=
  let (reports, files) :=
    processAll config (fun _ => Template.strip) files (expand config files paths)
  (⟨.strip, reports, none⟩, files)

/-- Turns confirmed invocations into tags in the templates that paths stand for. A template that
telemetry does not mention only loses its probes. -/
def Run.migrate (config : Config) (aggregate : Aggregate) (files : Workspace)
    (paths : List Path) : RunReport × Workspace :=
  let pass (path : Path) (template : Template) : PassResult :=
    template.migrate (aggregate.confirmedFor (config.identityFor path))
  let (reports, files) := processAll config pass files (expand config files paths)
  (⟨.migrate, reports, none⟩, files)

/-- Turns confirmed invocations into tags in every template that telemetry mentions. -/
def Run.migrateReported (config : Config) (aggregate : Aggregate) (files : Workspace) :
    RunReport × Workspace :=
  Run.migrate config aggregate files (aggregate.identities.map config.resolve)

end TagMigration
