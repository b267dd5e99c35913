/-
The files that paths stand for. A path to a directory stands for the templates below it, found by a
walk. The components of their paths are those of the path to the directory and the names in
between, so they come in the order of a walk, name by name as bytes, and no path comes twice. Which
of the files are templates is told by the ending of their names: a name that only begins with
a dot has none, and the name of a directory does not count.
-/
import TagMigration.Proofs.ByteOrder
import TagMigration.Proofs.Project.Components
import TagMigration.Proofs.Project.Walk

namespace TagMigration

namespace Path

/-! ### Components -/

variable {path : Path} {names : List String} {name : String}

/-- The bytes of a component. -/
def Component.bytes : Component → List UInt8
  | .root => Utf8.bytes "/"
  | .here => Utf8.bytes "."
  | .up => Utf8.bytes ".."
  | .name name => Utf8.bytes name

theorem IsProper.component? (proper : IsProper name) :
    component? name = some (.name name) := by
  rw [Path.component?, proper.1, if_neg proper.2.1]
  rfl

theorem IsProper.pieces (proper : IsProper name) : (Path.mk name).pieces = [name] := by
  rw [Path.pieces, split_of_noSlash proper.2.2, List.map_singleton, String.ofList_toList]

/-- The components of a path as bytes. -/
def bytes (path : Path) : List (List UInt8) :=
  path.components.map Component.bytes

/-- The path from a directory to what is below it under the given names. -/
def descend (path : Path) (names : List String) : Path :=
  names.foldl (fun path name => path.join ⟨name⟩) path

theorem isEmpty_text_descend (nonempty : path.text.isEmpty = false)
    (proper : ∀ name ∈ names, IsProper name) : (path.descend names).text.isEmpty = false := by
  induction names generalizing path with
  | nil => exact nonempty
  | cons name names inductionHypothesis =>
    obtain ⟨first, rest⟩ := List.forall_mem_cons.mp proper
    exact inductionHypothesis (isEmpty_text_join nonempty first) rest

/-- What is found below a directory has the components of the path to it, and the names that lead to
it from there. -/
theorem components_descend (nonempty : path.text.isEmpty = false)
    (proper : ∀ name ∈ names, IsProper name) :
    (path.descend names).components = path.components ++ names.map .name := by
  induction names generalizing path with
  | nil => exact (List.append_nil _).symm
  | cons name names inductionHypothesis =>
    obtain ⟨first, rest⟩ := List.forall_mem_cons.mp proper
    have joined : (path.join ⟨name⟩).components = path.components ++ [.name name] := by
      rw [components_join nonempty first.not_isAbsolute, first.pieces]
      simp [first.component?]
    have further := inductionHypothesis (isEmpty_text_join nonempty first) rest
    rw [joined, List.append_assoc] at further
    exact further

theorem fileName?_join (nonempty : path.text.isEmpty = false) (proper : IsProper name) :
    (path.join ⟨name⟩).fileName? = some name := by
  obtain ⟨-, front, isBody, -⟩ := exists_body_join nonempty proper.not_isAbsolute
  rw [fileName?, isBody, proper.pieces, splitLast?, List.reverse_append]
  simp [proper.1, proper.2.1]

/-! ### Endings -/

/-- Whether a name has an ending: what stands behind its last dot, if something stands in front of
that dot. -/
def HasEnding (name ending : String) : Prop :=
  ∃ stem, stem ≠ "" ∧ name = stem ++ "." ++ ending ∧ '.' ∉ ending.toList

theorem extension?_of_dot {front back : List Char} (isName : path.fileName? = some name)
    (text : name.toList = front ++ '.' :: back) (noDot : '.' ∉ back) :
    path.extension? = if front = [] then none else some (String.ofList back) := by
  have backwards : name.toList.reverse = back.reverse ++ '.' :: front.reverse := by
    simp [text]
  have ending : (back.reverse ++ '.' :: front.reverse).takeWhile (· != '.') = back.reverse := by
    rw [List.takeWhile_append_of_pos fun char member => ?_]
    · simp
    · rw [bne_iff_ne]
      rintro rfl
      exact noDot (List.mem_reverse.mp member)
  rw [extension?, isName, Option.bind_some]
  simp only [backwards, ending, List.drop_left, List.reverse_reverse]
  cases isFront : front.reverse with
  | nil => rw [if_pos (List.reverse_eq_nil_iff.mp isFront)]
  | cons char rest =>
    have nonempty : front ≠ [] := fun isEmpty => by simp [isEmpty] at isFront
    rw [if_neg nonempty]

theorem extension?_of_noDot (isName : path.fileName? = some name) (noDot : '.' ∉ name.toList) :
    path.extension? = none := by
  have whole : name.toList.reverse.takeWhile (· != '.') = name.toList.reverse := by
    rw [List.takeWhile_eq_self_iff]
    intro char member
    rw [bne_iff_ne]
    rintro rfl
    exact noDot (List.mem_reverse.mp member)
  rw [extension?, isName, Option.bind_some]
  simp only [whole, List.drop_length]

/-- The extension of a path is the ending of the name at its end. -/
theorem extension?_eq_some_iff {ending : String} (isName : path.fileName? = some name) :
    path.extension? = some ending ↔ HasEnding name ending := by
  constructor
  · intro isEnding
    have dotted : '.' ∈ name.toList.reverse := by
      refine Decidable.byContradiction fun noDot => ?_
      rw [extension?_of_noDot isName (mt List.mem_reverse.mpr noDot)] at isEnding
      cases isEnding
    obtain ⟨back, front, cut, noDot⟩ := List.eq_append_cons_of_mem dotted
    have text : name.toList = front.reverse ++ '.' :: back.reverse := by
      rw [← List.reverse_inj, cut]
      simp
    rw [extension?_of_dot isName text (by simpa using noDot), Option.ite_none_left_eq_some,
      Option.some.injEq] at isEnding
    obtain ⟨nonempty, rfl⟩ := isEnding
    refine ⟨String.ofList front.reverse, ?_, ?_, by simpa using noDot⟩
    · simpa using nonempty
    · rw [← String.toList_inj, text]
      simp
  · rintro ⟨stem, nonempty, rfl, noDot⟩
    have text : (stem ++ "." ++ ending).toList = stem.toList ++ '.' :: ending.toList := by simp
    rw [extension?_of_dot isName text noDot, if_neg (by simpa using nonempty),
      String.ofList_toList]

end Path

/-- What is found below a directory is a template if its name has one of the given endings. -/
theorem Config.isEligible_descend {config : Config} {path : Path} {above : List String}
    {name : String} (nonempty : path.text.isEmpty = false)
    (proper : ∀ other ∈ above ++ [name], Path.IsProper other) :
    config.isEligible (path.descend (above ++ [name])) = true ↔
      ∃ ending ∈ config.extensions, Path.HasEnding name ending := by
  obtain ⟨before, isName⟩ := List.forall_mem_append.mp proper
  have last : (path.descend (above ++ [name])).fileName? = some name := by
    rw [Path.descend, List.foldl_append]
    exact Path.fileName?_join (Path.isEmpty_text_descend nonempty before)
      (isName name List.mem_cons_self)
  simp only [← Path.extension?_eq_some_iff last, isEligible]
  cases (path.descend (above ++ [name])).extension? <;> simp

/-! ### Listings -/

/-- Places are ordered like the bytes of their names. -/
theorem FileTree.bytes_lt_of_before {first second : List String}
    (less : FileTree.before first second = true) :
    first.map Utf8.bytes < second.map Utf8.bytes := by
  induction first generalizing second with
  | nil =>
    cases second with
    | nil => cases less
    | cons name names => exact List.nil_lt_cons _ _
  | cons name names inductionHypothesis =>
    cases second with
    | nil => cases less
    | cons other others =>
      rw [List.map_cons, List.map_cons, List.cons_lt_cons_iff]
      rcases FileTree.before_cons.mp less with lower | ⟨rfl, further⟩
      · exact .inl (Utf8.bytes_lt lower)
      · exact .inr ⟨rfl, inductionHypothesis further⟩

/-- What is found below a directory is ordered by its place there. -/
theorem Path.bytes_descend_lt {path : Path} {first second : List String}
    (nonempty : path.text.isEmpty = false) (proper : ∀ name ∈ first, IsProper name)
    (properToo : ∀ name ∈ second, IsProper name) (less : FileTree.before first second = true) :
    (path.descend first).bytes < (path.descend second).bytes := by
  rw [bytes, bytes, components_descend nonempty proper, components_descend nonempty properToo,
    List.map_append, List.map_append, List.map_map, List.map_map]
  exact List.append_left_lt (FileTree.bytes_lt_of_before less)

namespace Run

variable {config : Config} {files : Workspace} {path : Path} {place : List String}

/-- The path to what is met below a directory, if that is a file. -/
def filePath? (path : Path) : List String × FileTree.Entry → Option Path
  | (names, .file _) => some (path.descend names)
  | (_, .directory) => none

theorem expandPath_eq (leads : files.directory? path = some place) :
    expandPath config files path =
      ((files.tree.below place).filterMap (filePath? path)).filter config.isEligible := by
  rw [expandPath, leads, List.filter_filterMap]
  refine List.filterMap_congr fun item _ => ?_
  obtain ⟨names, entry⟩ := item
  cases entry with
  | directory => rfl
  | file content =>
    rw [filePath?, Option.filter_some]
    rfl

/-- The listing of a directory: what a walk meets there, as far as it is a file and a template.
These are the files below the directory whose names have one of the given endings, each of them
once, in increasing order of their components as bytes. -/
structure Lists (config : Config) (files : Workspace) (path : Path) (place : List String)
    (listed : List Path) : Prop where
  walked : listed = ((files.tree.walk place).filterMap (filePath? path)).filter config.isEligible
  complete : ∀ found, found ∈ listed ↔ ∃ above name content,
    files.tree.get? (place ++ (above ++ [name])) = some (.file content) ∧
    (∃ ending ∈ config.extensions, Path.HasEnding name ending) ∧
    found = path.descend (above ++ [name])
  once : listed.Nodup
  increasing : listed.Pairwise fun first second => first.bytes < second.bytes

theorem isProper_below (wellFormed : files.tree.WellFormed) {names : List String}
    {entry : FileTree.Entry} (found : files.tree.get? (place ++ names) = some entry) :
    ∀ name ∈ names, Path.IsProper name :=
  fun name member => wellFormed.isProper found name (List.mem_append_right place member)

theorem mem_expandPath_directory (wellFormed : files.tree.WellFormed)
    (leads : files.directory? path = some place) (found : Path) :
    found ∈ expandPath config files path ↔ ∃ above name content,
      files.tree.get? (place ++ (above ++ [name])) = some (.file content) ∧
      (∃ ending ∈ config.extensions, Path.HasEnding name ending) ∧
      found = path.descend (above ++ [name]) := by
  have nonempty := Workspace.text_of_directory? leads
  rw [mem_expandPath wellFormed.ordered, leads]
  simp only [reduceCtorEq, false_and, false_or, Option.some.injEq]
  constructor
  · rintro ⟨_, names, rfl, named, ⟨content, there⟩, rfl, eligible⟩
    obtain ⟨above, name, rfl⟩ : ∃ above name, names = above ++ [name] :=
      ⟨_, _, (List.dropLast_append_getLast named).symm⟩
    exact ⟨above, name, content, there,
      (Config.isEligible_descend nonempty (isProper_below wellFormed there)).mp eligible, rfl⟩
  · rintro ⟨above, name, content, there, ending, rfl⟩
    exact ⟨place, above ++ [name], rfl, by simp, ⟨content, there⟩, rfl,
      (Config.isEligible_descend nonempty (isProper_below wellFormed there)).mpr ending⟩

theorem increasing_expandPath (wellFormed : files.tree.WellFormed)
    (leads : files.directory? path = some place) :
    (expandPath config files path).Pairwise fun first second => first.bytes < second.bytes := by
  have nonempty := Workspace.text_of_directory? leads
  rw [expandPath_eq leads]
  refine List.Pairwise.filter _ (List.Pairwise.filterMap _ ?_
    (List.Pairwise.and_mem.mp (wellFormed.ordered.increasing_below place)))
  rintro ⟨names, entry⟩ ⟨others, other⟩ ⟨inNames, inOthers, less⟩ first isFirst second isSecond
  obtain ⟨-, found⟩ := wellFormed.ordered.mem_below.mp inNames
  obtain ⟨-, further⟩ := wellFormed.ordered.mem_below.mp inOthers
  -- Both are files, for only these have paths.
  cases entry with
  | directory => cases isFirst
  | file =>
    cases other with
    | directory => cases isSecond
    | file =>
      obtain rfl := Option.some.inj isFirst
      obtain rfl := Option.some.inj isSecond
      exact Path.bytes_descend_lt nonempty (isProper_below wellFormed found)
        (isProper_below wellFormed further) less

theorem expandPath_lists (wellFormed : files.tree.WellFormed)
    (leads : files.directory? path = some place) :
    Lists config files path place (expandPath config files path) := by
  have increasing : (expandPath config files path).Pairwise fun first second =>
      first.bytes < second.bytes := increasing_expandPath wellFormed leads
  refine ⟨?_, mem_expandPath_directory wellFormed leads, ?_, increasing⟩
  · rw [expandPath_eq leads, wellFormed.walk_eq_below]
  · refine increasing.imp fun {first second} less same => ?_
    rw [same] at less
    exact List.lt_irrefl _ less

/-- Paths stand for what each of them stands for, one after the other: a path to a directory for the
listing of the directory, any other path for itself. -/
theorem expand_lists (config : Config) {files : Workspace} (wellFormed : files.tree.WellFormed)
    (paths : List Path) :
    expand config files paths = paths.flatMap (fun path => expand config files [path]) ∧
      ∀ path, (files.directory? path = none → expand config files [path] = [path]) ∧
        ∀ place, files.directory? path = some place →
          Lists config files path place (expand config files [path]) := by
  have single (path : Path) : expand config files [path] = expandPath config files path :=
    List.append_nil _
  refine ⟨?_, fun path => ⟨fun leads => ?_, fun place leads => ?_⟩⟩
  · rw [expand]
    exact congrArg paths.flatMap (funext fun path => (single path).symm)
  · rw [single, expandPath, leads]
  · rw [single]
    exact expandPath_lists wellFormed leads

/-- Files whose names begin like that of a directory beside them, a name that only begins with a
dot, and a directory that is named like a template. -/
def crowdedFiles : Workspace where
  tree.entries := [(["d"], .directory), (["d", ".hbs"], .file "".toUTF8), (["d", "a"], .directory),
    (["d", "a", "x.hbs"], .file "".toUTF8), (["d", "a-b.hbs"], .file "".toUTF8),
    (["d", "a.hbs"], .file "".toUTF8), (["d", "b.hbs"], .directory),
    (["d", "b.hbs", "y.txt"], .file "".toUTF8), (["d", "b.hbs", "z.hbs"], .file "".toUTF8),
    (["n.txt"], .file "".toUTF8)]
  here := []
  process := 7

theorem expand_lists_crowdedFiles :
    let listed : List Path := [⟨"d/a/x.hbs"⟩, ⟨"d/a-b.hbs"⟩, ⟨"d/a.hbs"⟩, ⟨"d/b.hbs/z.hbs"⟩]
    expand .default crowdedFiles [⟨"d"⟩, ⟨"n.txt"⟩] = listed ++ [⟨"n.txt"⟩] ∧
      Lists .default crowdedFiles ⟨"d"⟩ ["d"] listed := by
  obtain ⟨concatenated, each⟩ :=
    expand_lists .default (show crowdedFiles.tree.WellFormed by decide +kernel)
      [⟨"d"⟩, ⟨"n.txt"⟩]
  have lists := (each ⟨"d"⟩).2 ["d"] (by decide +kernel)
  have itself := (each ⟨"n.txt"⟩).1 (by decide +kernel)
  have found : expand .default crowdedFiles [⟨"d"⟩] =
      [⟨"d/a/x.hbs"⟩, ⟨"d/a-b.hbs"⟩, ⟨"d/a.hbs"⟩, ⟨"d/b.hbs/z.hbs"⟩] := by
    decide +kernel
  rw [found] at lists
  refine ⟨?_, lists⟩
  rw [concatenated, List.flatMap_cons, List.flatMap_cons, found, itself]
  rfl

end Run

end TagMigration
