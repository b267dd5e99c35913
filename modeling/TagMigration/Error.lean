/-
What can go wrong, for whoever runs the program. Every failure is one of a few kinds;
its code, its wording and its hint are functions of the kind, and only a fault in a
template has a line and a column.
-/
import TagMigration.Json.Value
import TagMigration.Reader.Fault
import TagMigration.Source.Location

namespace TagMigration

/-! ### Kinds -/

/-- Why a file operation failed. -/
inductive FileFault where
  | notFound
  | exists
  | notDirectory
  | isDirectory
  | busy
  | nameTooLong
  | nulInName
  | notText
  | denied
  | noSpace
deriving DecidableEq, Repr

/-- The wording of a failed file operation. -/
def FileFault.message : FileFault → String
  | .notFound => "No such file or directory (os error 2)"
  | .exists => "File exists (os error 17)"
  | .notDirectory => "Not a directory (os error 20)"
  | .isDirectory => "Is a directory (os error 21)"
  | .busy => "Device or resource busy (os error 16)"
  | .nameTooLong => "File name too long (os error 36)"
  | .nulInName => "file name contained an unexpected NUL byte"
  | .notText => "stream did not contain valid UTF-8"
  | .denied => "Permission denied (os error 13)"
  | .noSpace => "No space left on device (os error 28)"

/-- Why telemetry was not accepted. -/
inductive TelemetryFault where
  | wrongShape
  | notJson
deriving DecidableEq, Repr

/-- Why a helper module was not accepted. -/
inductive HelperFault where
  | doesNotParse
  | noDefaultExport
deriving DecidableEq, Repr

/-- A failure. -/
inductive Error where
  | unreadable (identity : String) (place : Location) (cause : Cause)
  | unprintable (identity : String) (span : Span) (sourceSize : Nat)
  | file (path : String) (fault : FileFault)
  | telemetry (fault : TelemetryFault)
  | config (path : String)
  | helper (fault : HelperFault)
deriving DecidableEq, Repr

/-- The error of a template that cannot be read. -/
def Error.ofFault (source identity : String) (fault : Fault) : Error :=
  .unreadable identity (Location.ofOffset source.toList fault.offset) fault.cause

/-! ### What is told about them -/

namespace Error

/-- Whether a cause is a construct that is refused. -/
def isRefusal : Cause → Bool
  | .unrecognized _ => true
  | _ => false

/-- The code of a kind of failure. -/
def code : Error → String
  | .unreadable _ _ cause => if isRefusal cause then "UNRECOGNIZED_NODE" else "PARSE_ERROR"
  | .unprintable .. => "PRINT_ERROR"
  | .file .. => "IO_ERROR"
  | .telemetry _ => "TELEMETRY_ERROR"
  | .config _ => "CONFIG_ERROR"
  | .helper _ => "STUB_ERROR"

/-- The wording of a failure. -/
def message : Error → String
  | .unreadable identity place cause =>
    identity ++ ":" ++ toString place.line ++ ":" ++ toString place.column ++ ": " ++ cause.message
  | .unprintable identity span sourceSize =>
    identity ++ ": print failed: span " ++ toString span.start ++ ".." ++ toString span.stop ++
      " is outside the " ++ toString sourceSize ++ "-byte source"
  | .file path fault => path ++ ": " ++ fault.message
  | .telemetry fault =>
    "telemetry: expected a datalet object or an array of datalets: " ++
      match fault with
      | .wrongShape => "data did not match any variant of untagged enum TelemetryInput"
      | .notJson => ""
  | .config path => "config " ++ path ++ ": "
  | .helper .doesNotParse => "runtime stub: helper source does not parse: "
  | .helper .noDefaultExport => "runtime stub: helper source has no default export"

/-- Where in a template the failure is. -/
def place? : Error → Option Location
  | .unreadable _ place _ => some place
  | _ => none

/-- What to do about a kind of failure. -/
def hint? : Error → Option String
  | .unreadable _ _ cause =>
    some <|
      if isRefusal cause then
        "Partials, decorators, raw blocks and inverse sections are not supported."
      else "The file was left untouched. Fix the template syntax and re-run."
  | .unprintable .. => some "No output was written for this file."
  | .telemetry _ =>
    some "Telemetry must be a JSON object or array of objects mapping templates to names."
  | .file .. => none
  | .config _ => none
  | .helper _ => none

/-- A failure as it stands in reports, its code under the key `codeKey`. -/
def toJson (codeKey : String) (error : Error) : Json :=
  .object [(codeKey, .string error.code), ("message", .string error.message),
    ("line", .ofOption (fun place : Location => .natural place.line) error.place?),
    ("column", .ofOption (fun place : Location => .natural place.column) error.place?),
    ("hint", .ofOption .string error.hint?)]

end Error

end TagMigration
