/-
Paths as text. A path is a list of pieces between slashes. An empty piece and a piece
`.` name nothing and are passed over, except that a leading `.` is kept, as is the slash
of an absolute path. Two paths are told apart by what is left, their components; but
every operation keeps the text of the parts it does not touch.
-/

namespace TagMigration

/-- A path, as it was written. -/
structure Path where
  text : String
deriving DecidableEq, Repr

/-- What a path begins with, besides its pieces: nothing, the root, or the current place. -/
inductive Path.Lead where
  | none
  | root
  | here
deriving DecidableEq, Repr

/-- A step of a path. -/
inductive Path.Component where
  | root
  | here
  | up
  | name (name : String)
deriving DecidableEq, Repr

namespace Path

/-! ### Pieces -/

/-- A text cut at its slashes. There is always a first piece. -/
def split : List Char → List (List Char)
  | [] => [[]]
  | char :: rest =>
    if char = '/' then [] :: split rest
    else
      match split rest with
      | [] => [[char]]
      | first :: more => (char :: first) :: more

/-- The pieces of a path, its lead included. -/
def pieces (path : Path) : List String :=
  (split path.text.toList).map String.ofList

/-- Whether a piece names nothing. -/
def isIdle (piece : String) : Bool :=
  piece == "" || piece == "."

/-- Whether a path begins at the root. -/
def isAbsolute (path : Path) : Bool :=
  ['/'].isPrefixOf path.text.toList

/-- The lead of a path. -/
def lead (path : Path) : Lead :=
  if path.isAbsolute then .root
  else if path.pieces.head? = some "." then .here
  else .none

/-- The pieces of a path after its lead. -/
def body (path : Path) : List String :=
  match path.lead with
  | .none => path.pieces
  | .root => path.pieces.drop 1
  | .here => path.pieces.drop 1

/-- The path with a lead and the given pieces after it. -/
def ofBody (lead : Lead) (body : List String) : Path :=
  match lead with
  | .none => ⟨"/".intercalate body⟩
  | .root => ⟨"/" ++ "/".intercalate body⟩
  | .here => ⟨"/".intercalate ("." :: body)⟩

/-- The pieces without those at the end that name nothing. -/
def trimEnd (body : List String) : List String :=
  (body.reverse.dropWhile isIdle).reverse

/-- The pieces without those at either end that name nothing. -/
def trimEnds (body : List String) : List String :=
  trimEnd (body.dropWhile isIdle)

/-! ### Components -/

/-- The component that a piece stands for, if it names anything. -/
def component? (piece : String) : Option Component :=
  if isIdle piece then none
  else if piece = ".." then some .up
  else some (.name piece)

/-- The component of a lead. -/
def leadComponents : Lead → List Component
  | .none => []
  | .root => [.root]
  | .here => [.here]

/-- The components of a path. -/
def components (path : Path) : List Component :=
  leadComponents path.lead ++ path.body.filterMap component?

/-! ### Joining and stripping -/

/-- The path `relative` as seen from `base`. An absolute path is the same from everywhere. -/
def join (base relative : Path) : Path :=
  if relative.isAbsolute || base.text.isEmpty then relative
  else if base.text.toList.getLast? = some '/' then ⟨base.text ++ relative.text⟩
  else ⟨base.text ++ "/" ++ relative.text⟩

/-- What is left of the pieces after the given components. -/
def afterComponents : List String → List Component → Option (List String)
  | body, [] => some body
  | [], _ :: _ => none
  | piece :: rest, wanted :: more =>
    match component? piece with
    | none => afterComponents rest (wanted :: more)
    | some found => if found = wanted then afterComponents rest more else none

/-- What is left of a path after the components of `base`, if it begins with them. -/
def strip? (path base : Path) : Option Path :=
  match base.components, leadComponents path.lead with
  | [], _ => some (ofBody path.lead (trimEnd path.body))
  | wanted, [] => (afterComponents path.body wanted).map fun rest => ofBody .none (trimEnds rest)
  | wanted :: more, found :: _ =>
    if found = wanted then
      (afterComponents path.body more).map fun rest => ofBody .none (trimEnds rest)
    else none

/-! ### The last component -/

/-- The pieces before the last one that names anything, and that piece. -/
def splitLast? (body : List String) : Option (List String × String) :=
  match body.reverse.dropWhile isIdle with
  | [] => none
  | last :: rest => some (rest.reverse, last)

/-- The name at the end of a path. -/
def fileName? (path : Path) : Option String :=
  (splitLast? path.body).bind fun (_, last) => if last = ".." then none else some last

/-- The path without its last component. -/
def parent? (path : Path) : Option Path :=
  match splitLast? path.body, path.lead with
  | some (rest, _), lead => some (ofBody lead (trimEnd rest))
  | none, .here => some ⟨""⟩
  | none, .root => none
  | none, .none => none

/-- The path with another name at its end. -/
def withFileName (path : Path) (name : String) : Path :=
  match path.fileName?, path.parent? with
  | some _, some parent => parent.join ⟨name⟩
  | _, _ => path.join ⟨name⟩

/-- What follows the last dot of a name, unless nothing stands before that dot. -/
def extension? (path : Path) : Option String :=
  path.fileName?.bind fun name =>
    let backwards := name.toList.reverse
    let ending := backwards.takeWhile (· != '.')
    match backwards.drop ending.length with
    | [] => none
    | [_] => none
    | _ :: _ => some (String.ofList ending.reverse)

end Path

end TagMigration
