/-
A tree of files. Every file and directory is an entry under the list of names that leads
to it from the root. The entries are kept in increasing order of these lists, so the
entries below a directory come in the order of a walk that goes through the names of a
directory in order and enters a subdirectory when it meets it.

A file system can refuse what it is asked to do. What it refuses depends on the place, as with a
file that is protected or a quota that is used up, and stays the same for as long as the tree is
looked at.
-/
import TagMigration.Error

namespace TagMigration

/-- What stands at a place of a file tree. -/
inductive FileTree.Entry where
  | file (content : ByteArray)
  | directory

/-- How the writing of a file is refused: the file is not opened and stays as it is, or what is
written is cut off after some bytes. -/
inductive FileTree.Refusal where
  | closed (fault : FileFault)
  | cut (size : Nat) (fault : FileFault)

/-- What a file system refuses, place by place: to write a file, to make a directory, to take in a
file that is moved there, and to remove what stands there. -/
structure FileTree.Refusals where
  write : List String → Option FileTree.Refusal
  create : List String → Option FileFault
  move : List String → Option FileFault
  remove : List String → Option FileFault

/-- Nothing is refused. -/
def FileTree.Refusals.none : FileTree.Refusals where
  write _ := .none
  create _ := .none
  move _ := .none
  remove _ := .none

/-- The entries of a file tree, in increasing order of their names. The root has no entry. -/
structure FileTree where
  entries : List (List String × FileTree.Entry)
  refusals : FileTree.Refusals := .none

namespace FileTree

/-- No file at all. -/
def empty : FileTree where
  entries := []

/-- The order of places: name by name, each by code points. -/
def before : List String → List String → Bool
  | [], [] => false
  | [], _ :: _ => true
  | _ :: _, [] => false
  | first :: rest, second :: more => first < second || (first == second && before rest more)

/-- The entry at a place. The root is a directory. -/
def get? (tree : FileTree) (place : List String) : Option Entry :=
  if place.isEmpty then some .directory
  else (tree.entries.find? fun entry => entry.1 == place).map (·.2)

/-- The entries with one put in its place. -/
def insert (place : List String) (entry : Entry) :
    List (List String × Entry) → List (List String × Entry)
  | [] => [(place, entry)]
  | head :: rest =>
    if head.1 = place then (place, entry) :: rest
    else if before place head.1 then (place, entry) :: head :: rest
    else head :: insert place entry rest

/-- The tree with an entry put in its place. -/
def put (tree : FileTree) (place : List String) (entry : Entry) : FileTree :=
  { tree with entries := insert place entry tree.entries }

/-- The tree without the entry at a place and all below it. -/
def erase (tree : FileTree) (place : List String) : FileTree :=
  { tree with entries := tree.entries.filter fun entry => !place.isPrefixOf entry.1 }

/-- The entries below a place, each under its names from there. -/
def below (tree : FileTree) (place : List String) : List (List String × Entry) :=
  tree.entries.filterMap fun (key, entry) =>
    if place.isPrefixOf key && key != place then some (key.drop place.length, entry) else none

/-- The tree with a directory at every place on the way to `place` that has no entry. -/
def putParents (tree : FileTree) (place : List String) : FileTree :=
  (List.range place.length).foldl (fun tree count =>
    match tree.get? (place.take count) with
    | some _ => tree
    | none => tree.put (place.take count) .directory) tree

end FileTree

end TagMigration
