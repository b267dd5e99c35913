/-
Reports of runs. A report has an entry for every file that a run was given, in order: what
became of the file, how many invocations changed, and the digests of its content before
and after.
-/
import TagMigration.Project.Helper

namespace TagMigration

/-- The passes that run over the files of a project. -/
inductive Pass where
  | instrument
  | migrate
  | strip
deriving DecidableEq, Repr

/-- The name of a pass in reports. -/
def Pass.name : Pass → String
  | .instrument => "instrument"
  | .migrate => "rewrite"
  | .strip => "strip"

/-- What became of a file: it was written, its content stayed as it was, it is no template, or it
failed. -/
inductive FileStatus where
  | written
  | unchanged
  | skipped
  | failed (error : Error)
deriving DecidableEq, Repr

/-- The members of a file's entry that tell its status. -/
def FileStatus.fields : FileStatus → List (String × Json)
  | .written => [("status", .string "written")]
  | .unchanged => [("status", .string "unchanged")]
  | .skipped => [("status", .string "skipped")]
  | .failed error => [("status", .string "failed"), ("error", error.toJson "code")]

/-- The entry of a file. -/
structure FileReport where
  path : Path
  identity : String
  status : FileStatus
  changes : Nat
  digestBefore : Option String
  digestAfter : Option String
deriving DecidableEq, Repr

/-- The entry of a file whose content was not looked at, or not to the end. -/
def FileReport.bare (path : Path) (identity : String) (status : FileStatus) : FileReport :=
  ⟨path, identity, status, 0, none, none⟩

/-- The entry of a file as JSON. -/
def FileReport.toJson (report : FileReport) : Json :=
  .object (("path", .string report.path.text) :: ("identity", .string report.identity) ::
    report.status.fields ++
    [("changes", .natural report.changes),
      ("digestBefore", .ofOption .string report.digestBefore),
      ("digestAfter", .ofOption .string report.digestAfter)])

/-- The report of a run. The helper is told of only if the run wrote it or found it in place. -/
structure RunReport where
  pass : Pass
  files : List FileReport
  helper : Option Helper.Outcome
deriving DecidableEq, Repr

namespace RunReport

/-- The number of files that were written. -/
def written (report : RunReport) : Nat :=
  report.files.countP fun file => file.status == .written

/-- The number of files whose content stayed as it was. -/
def unchanged (report : RunReport) : Nat :=
  report.files.countP fun file => file.status == .unchanged

/-- The number of files that are no templates. -/
def skipped (report : RunReport) : Nat :=
  report.files.countP fun file => file.status == .skipped

/-- The number of files that failed. -/
def failed (report : RunReport) : Nat :=
  report.files.countP fun file =>
    match file.status with
    | .failed _ => true
    | _ => false

/-- Whether any file failed. -/
def hasFailures (report : RunReport) : Bool :=
  0 < report.failed

/-- A report as JSON. -/
def toJson (report : RunReport) : Json :=
  .object [("pass", .string report.pass.name),
    ("files", .array (report.files.map FileReport.toJson)),
    ("stub", .ofOption Helper.Outcome.toJson report.helper)]

end RunReport

end TagMigration
