/-
The command line program. It loads the files that a run needs to see, runs the program as a
function of its arguments and these files, writes back what has changed, and prints the report.
-/
import TagMigration.Cli
import TagMigration.Json.Writer

namespace TagMigration.Main

/-- The path of a place on the disk. -/
def diskPath (place : List String) : String :=
  "/" ++ "/".intercalate place

/-- The tree with the file or directory at a place of the disk, if there is one. Tells whether it
is a directory. -/
def loadEntry (tree : FileTree) (place : List String) : IO (Bool × FileTree) := do
  try
    let found ← IO.FS.realPath (diskPath place)
    if ← found.isDir then return (true, tree.put place .directory)
    return (false, tree.put place (.file (← IO.FS.readBinFile found)))
  catch _ => return (false, tree)

/-- The tree with all that is below a directory of the disk. Links are not followed. -/
partial def loadBelow (tree : FileTree) (place : List String) : IO FileTree := do
  let directory ← IO.FS.realPath (diskPath place)
  let mut tree := tree
  for entry in ← directory.readDir do
    let inside := place ++ [entry.fileName]
    if (← IO.FS.realPath entry.path) == directory / entry.fileName then
      let (isDirectory, loaded) ← loadEntry tree inside
      tree ← if isDirectory then loadBelow loaded inside else pure loaded
  return tree

/-- The tree with what is on the disk at a place and on the way to it. Tells whether there is a
directory at the place. -/
def loadWay (tree : FileTree) (place : List String) : IO (Bool × FileTree) := do
  let mut tree := tree
  let mut inDirectory := true
  for count in List.range place.length do
    if inDirectory then
      (inDirectory, tree) ← loadEntry tree (place.take (count + 1))
  return (inDirectory, tree)

/-- The tree with what is on the disk at a place, on the way to it and below it. -/
def load (tree : FileTree) (place : List String) : IO FileTree := do
  let (isDirectory, tree) ← loadWay tree place
  if isDirectory then loadBelow tree place else return tree

/-- Writes an entry to the disk. -/
def store (place : List String) : FileTree.Entry → IO Unit
  | .directory => IO.FS.createDir (diskPath place)
  | .file content => IO.FS.writeBinFile (diskPath place) content

/-- Whether an entry differs from what a tree holds at its place. -/
def differs (tree : FileTree) (place : List String) (entry : FileTree.Entry) : Bool :=
  match entry, tree.get? place with
  | .directory, some .directory => false
  | .file content, some (.file known) => content.data != known.data
  | _, _ => true

/-- The files that a run needs to see. -/
def gather (given : List String) (files : Workspace) : IO Workspace := do
  let mut files := files
  for _ in List.range Cli.needsRounds do
    for path in Cli.needs given files do
      files := { files with tree := ← load files.tree (files.placeOf path) }
  return files

end TagMigration.Main

open TagMigration in
/-- Runs the program on its arguments. -/
def main (given : List String) : IO UInt32 := do
  let here ← IO.currentDir
  let names := Workspace.placeOf ⟨.empty, [], 0⟩ ⟨here.toString⟩
  let tree := (FileTree.empty.putParents names).put names .directory
  let files ← Main.gather given ⟨tree, names, 0⟩
  let (ending, after) := Cli.run given files
  for (place, entry) in after.tree.entries do
    if Main.differs files.tree place entry then Main.store place entry
  match ending.printed? with
  | some report => IO.println report.toJson.pretty
  | none => ending.messages.forM fun line => IO.eprintln line
  return ending.exitCode.toUInt32
