/-
The files a run works on: a file tree, the directory that relative paths start from, and
the number of the running process, which goes into the name of a staging file. Each
operation finds its way along the pieces of a path; the way fails where a name is missing
or too long, or where a file stands in place of a directory. At the end of the way the file
system may still refuse the operation.
-/
import TagMigration.Project.FileTree
import TagMigration.Project.Path

namespace TagMigration

/-- The files a run works on. -/
structure Workspace where
  tree : FileTree
  here : List String
  process : Nat

/-- Where a path leads: to an entry, or to a free name in a directory. `slash` tells whether a
slash follows that name. -/
inductive Workspace.Spot where
  | taken (place : List String) (entry : FileTree.Entry)
  | free (place : List String) (slash : Bool)

namespace Workspace

/-! ### Finding the way -/

/-- The greatest size of a name, in bytes. -/
def nameLimit : Nat := 255

/-- The greatest size of a path, in bytes. -/
def pathLimit : Nat := 4095

/-- Goes on from a place along the pieces of a path. -/
def follow (tree : FileTree) (place : List String) : List String → Except FileFault Spot
  | [] =>
    match tree.get? place with
    | some entry => .ok (.taken place entry)
    | none => .error .notFound
  | piece :: rest =>
    match tree.get? place with
    | none => .error .notFound
    | some (.file _) => .error .notDirectory
    | some .directory =>
      if Path.isIdle piece then follow tree place rest
      else if piece = ".." then follow tree place.dropLast rest
      else if nameLimit < piece.utf8ByteSize then .error .nameTooLong
      else
        let next := place ++ [piece]
        match tree.get? next with
        | some _ => follow tree next rest
        | none =>
          if rest.all (· == "") then .ok (.free next (!rest.isEmpty)) else .error .notFound

/-- Where a path leads. The empty path leads nowhere. -/
def locate (files : Workspace) (path : Path) : Except FileFault Spot :=
  if path.text.toList.contains '\x00' then .error .nulInName
  else if path.text.isEmpty then .error .notFound
  else if pathLimit < path.text.utf8ByteSize then .error .nameTooLong
  else follow files.tree (if path.isAbsolute then [] else files.here) path.pieces

/-- The place that the pieces of a path spell out, whether there is an entry or not. -/
def placeOf (files : Workspace) (path : Path) : List String :=
  path.pieces.foldl (fun place piece =>
    if Path.isIdle piece then place
    else if piece = ".." then place.dropLast
    else place ++ [piece]) (if path.isAbsolute then [] else files.here)

/-- The place of the directory that a path leads to. -/
def directory? (files : Workspace) (path : Path) : Option (List String) :=
  match files.locate path with
  | .ok (.taken place .directory) => some place
  | _ => none

/-- Whether a path leads to a directory. -/
def isDirectory (files : Workspace) (path : Path) : Bool :=
  (files.directory? path).isSome

/-- Whether a path leads to a file. -/
def isFile (files : Workspace) (path : Path) : Bool :=
  match files.locate path with
  | .ok (.taken _ (.file _)) => true
  | _ => false

/-! ### Reading -/

/-- The content of a file. -/
def read (files : Workspace) (path : Path) : Except FileFault ByteArray :=
  match files.locate path with
  | .ok (.taken _ (.file content)) => .ok content
  | .ok (.taken _ .directory) => .error .isDirectory
  | .ok (.free _ _) => .error .notFound
  | .error fault => .error fault

/-- The content of a file as text. -/
def readText (files : Workspace) (path : Path) : Except Error String :=
  match files.read path with
  | .error fault => .error (.file path.text fault)
  | .ok content =>
    match String.fromUTF8? content with
    | some text => .ok text
    | none => .error (.file path.text .notText)

/-! ### Writing -/

/-- The files with an entry put in its place. -/
def put (files : Workspace) (place : List String) (entry : FileTree.Entry) : Workspace :=
  { files with tree := files.tree.put place entry }

/-- Fills the file at a place, as far as the file system lets it. -/
def fill (files : Workspace) (place : List String) (content : ByteArray) :
    Except FileFault Unit × Workspace :=
  match files.tree.refusals.write place with
  | none => (.ok (), files.put place (.file content))
  | some (.closed fault) => (.error fault, files)
  | some (.cut size fault) => (.error fault, files.put place (.file (content.extract 0 size)))

/-- Writes a file, which is created if there is none. What was written before a failure stays. -/
def write (files : Workspace) (path : Path) (content : ByteArray) :
    Except FileFault Unit × Workspace :=
  match files.locate path with
  | .ok (.taken place (.file _)) => files.fill place content
  | .ok (.taken _ .directory) => (.error .isDirectory, files)
  | .ok (.free place false) => files.fill place content
  | .ok (.free _ true) => (.error .isDirectory, files)
  | .error fault => (.error fault, files)

/-- Creates a directory in a directory that is there. -/
def createDirectory (files : Workspace) (path : Path) : Except FileFault Workspace :=
  match files.locate path with
  | .ok (.taken _ _) => .error .exists
  | .ok (.free place _) =>
    match files.tree.refusals.create place with
    | none => .ok (files.put place .directory)
    | some fault => .error fault
  | .error fault => .error fault

/-- Creates a directory and the directories on the way to it, as far as they are missing. The
directories that were created before a failure stay. `depth` bounds the number of steps back. -/
def createDirectories (files : Workspace) : Nat → Path → Except FileFault Unit × Workspace
  | 0, _ => (.ok (), files)
  | depth + 1, path =>
    if path.text.isEmpty then (.ok (), files)
    else
      match files.createDirectory path with
      | .ok files => (.ok (), files)
      | .error .notFound =>
        match path.parent? with
        | none => (.error .notFound, files)
        | some parent =>
          match createDirectories files depth parent with
          | (.error fault, files) => (.error fault, files)
          | (.ok (), files) =>
            match files.createDirectory path with
            | .ok files => (.ok (), files)
            | .error fault =>
              if files.isDirectory path then (.ok (), files) else (.error fault, files)
      | .error fault => if files.isDirectory path then (.ok (), files) else (.error fault, files)

/-- Whether the last piece of a path is a name. -/
def endsInName (path : Path) : Bool :=
  match (path.pieces.reverse.dropWhile (· == "")).head? with
  | none => false
  | some last => last != "." && last != ".."

/-- Takes the file at one place to another one, if the file system lets it. -/
def carry (files : Workspace) (old new : List String) (content : ByteArray) :
    Except FileFault Workspace :=
  match files.tree.refusals.move new with
  | none => .ok { files with tree := (files.tree.erase old).put new (.file content) }
  | some fault => .error fault

/-- Moves a file to another path, where it takes the place of a file that is there. -/
def moveFile (files : Workspace) (source target : Path) : Except FileFault Workspace :=
  match files.locate source with
  | .ok (.taken old (.file content)) =>
    match files.locate target with
    | .ok (.taken new (.file _)) => files.carry old new content
    | .ok (.taken _ .directory) =>
      if !endsInName target then .error .busy
      else if target.text.toList.getLast? = some '/' then .error .notDirectory
      else .error .isDirectory
    | .ok (.free new false) => files.carry old new content
    | .ok (.free _ true) => .error .notDirectory
    | .error fault => .error fault
  | .ok (.taken _ .directory) => .error .isDirectory
  | .ok (.free _ _) => .error .notFound
  | .error fault => .error fault

/-- Removes a file, or a directory with all it holds. Tells whether that was possible. -/
def remove (files : Workspace) (path : Path) : Bool × Workspace :=
  match files.locate path with
  | .ok (.taken place _) =>
    match files.tree.refusals.remove place with
    | none => (true, { files with tree := files.tree.erase place })
    | some _ => (false, files)
  | _ => (false, files)

end Workspace

end TagMigration
