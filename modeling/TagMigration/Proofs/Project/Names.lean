/-
Names below a directory. A name that has no slash and is not one of the special pieces can be
joined to a path, and then the path spells out that name in the place it spelled out before. So the
files that an expansion finds below a directory are at the places where it found them.
-/
import TagMigration.Proofs.Project.Frame

namespace TagMigration

namespace Path

/-! ### Pieces -/

theorem split_cons_slash (rest : List Char) : split ('/' :: rest) = [] :: split rest := by
  rw [split, if_pos rfl]

theorem exists_split_cons {char : Char} (noSlash : char ≠ '/') (rest : List Char) :
    ∃ first more, split rest = first :: more ∧ split (char :: rest) = (char :: first) :: more := by
  have nonempty : split rest ≠ [] := by
    cases rest with
    | nil => exact nofun
    | cons char rest =>
      rw [split]
      split
      · exact nofun
      · split <;> exact nofun
  obtain ⟨first, more, cut⟩ := List.exists_cons_of_ne_nil nonempty
  refine ⟨first, more, cut, ?_⟩
  rw [split, if_neg noSlash, cut]

/-- A text with a slash is cut there. -/
theorem split_append_slash (front back : List Char) :
    split (front ++ '/' :: back) = split front ++ split back := by
  induction front with
  | nil => exact split_cons_slash back
  | cons char front inductionHypothesis =>
    rw [List.cons_append]
    by_cases isSlash : char = '/'
    · rw [isSlash, split_cons_slash, split_cons_slash, inductionHypothesis]
      rfl
    · obtain ⟨first, more, cut, whole⟩ := exists_split_cons isSlash (front ++ '/' :: back)
      obtain ⟨one, rest, cutFront, wholeFront⟩ := exists_split_cons isSlash front
      rw [cut, cutFront, List.cons_append, List.cons.injEq] at inductionHypothesis
      rw [whole, wholeFront, inductionHypothesis.1, inductionHypothesis.2]
      rfl

theorem split_of_noSlash {text : List Char} (noSlash : '/' ∉ text) : split text = [text] := by
  induction text with
  | nil => rfl
  | cons char rest inductionHypothesis =>
    obtain ⟨notHere, notInRest⟩ := not_or.mp (mt List.mem_cons.mpr noSlash)
    obtain ⟨first, more, cut, whole⟩ := exists_split_cons (Ne.symm notHere) rest
    rw [inductionHypothesis notInRest, List.cons.injEq] at cut
    rw [whole, ← cut.1, ← cut.2]

/-- The characters of a piece are characters of the text, and none of them is a slash. -/
theorem forall_mem_of_mem_split {text piece : List Char} (member : piece ∈ split text) :
    ∀ char ∈ piece, char ∈ text ∧ char ≠ '/' := by
  induction text generalizing piece with
  | nil =>
    obtain rfl := List.mem_singleton.mp member
    exact List.forall_mem_nil _
  | cons char rest inductionHypothesis =>
    by_cases isSlash : char = '/'
    · rw [isSlash, split_cons_slash] at member
      rcases List.mem_cons.mp member with rfl | inRest
      · exact List.forall_mem_nil _
      · exact fun other inPiece =>
          (inductionHypothesis inRest other inPiece).imp_left (List.mem_cons_of_mem _)
    · obtain ⟨first, more, cut, whole⟩ := exists_split_cons isSlash rest
      rw [whole] at member
      rw [cut] at inductionHypothesis
      have behind {piece : List Char} (inRest : piece ∈ first :: more) :
          ∀ other ∈ piece, other ∈ char :: rest ∧ other ≠ '/' := fun other inPiece =>
        (inductionHypothesis inRest other inPiece).imp_left (List.mem_cons_of_mem _)
      rcases List.mem_cons.mp member with rfl | inMore
      · exact List.forall_mem_cons.mpr
          ⟨⟨List.mem_cons_self, isSlash⟩, behind List.mem_cons_self⟩
      · exact behind (List.mem_cons_of_mem _ inMore)

theorem noSlash_of_mem_split {text piece : List Char} (member : piece ∈ split text) :
    '/' ∉ piece :=
  fun isSlash => (forall_mem_of_mem_split member _ isSlash).2 rfl

/-! ### Proper names -/

/-- Whether a name is that of an entry: it stands between slashes and is no special piece. -/
def IsProper (name : String) : Prop :=
  isIdle name = false ∧ name ≠ ".." ∧ '/' ∉ name.toList

instance (name : String) : Decidable (IsProper name) :=
  inferInstanceAs (Decidable (_ ∧ _ ∧ _))

variable {name : String} {path : Path}

theorem IsProper.not_isAbsolute (proper : IsProper name) : (Path.mk name).isAbsolute = false := by
  rw [isAbsolute, Bool.eq_false_iff]
  intro isPrefix
  obtain ⟨rest, starts⟩ := List.isPrefixOf_iff_prefix.mp isPrefix
  refine proper.2.2 ?_
  rw [← starts]
  exact List.mem_cons_self

theorem IsProper.step (proper : IsProper name) (place : List String) :
    Workspace.step place name = place ++ [name] := by
  rw [Workspace.step, proper.1, if_neg proper.2.1]
  rfl

/-- A relative path as seen from another path stands behind a slash. In front of the slash stands the
other path, without its last character if that is a slash. -/
theorem exists_text_join {relative : Path} (nonempty : path.text.isEmpty = false)
    (isRelative : relative.isAbsolute = false) :
    ∃ front, (path.join relative).text.toList = front ++ '/' :: relative.text.toList ∧
      (path.join relative).isAbsolute = path.isAbsolute ∧
      (path.text.toList = front ++ ['/'] ∨ path.text.toList = front) := by
  obtain ⟨first, rest, text⟩ : ∃ first rest, path.text.toList = first :: rest := by
    refine List.exists_cons_of_ne_nil fun isEmpty => ?_
    have same : path.text = "" := by simpa using isEmpty
    rw [same] at nonempty
    cases nonempty
  rw [join, isRelative, nonempty]
  simp only [Bool.or_false, Bool.false_eq_true, if_false]
  split
  · next ends =>
    obtain ⟨front, isFront⟩ : ∃ front, path.text.toList = front ++ ['/'] :=
      List.getLast?_eq_some_iff.mp ends
    refine ⟨front, ?_, ?_, .inl isFront⟩
    · rw [String.toList_append, isFront, List.append_assoc]
      rfl
    · rw [isAbsolute, isAbsolute, String.toList_append, text]
      rfl
  · refine ⟨path.text.toList, ?_, ?_, .inr rfl⟩
    · rw [String.toList_append, String.toList_append, List.append_assoc]
      rfl
    · rw [isAbsolute, isAbsolute, String.toList_append, String.toList_append, text]
      rfl

/-- A path with a name joined to it: what stands in front of the name, with the slash between
them, spells out the same as the path. -/
theorem exists_join (nonempty : path.text.isEmpty = false) (proper : IsProper name) :
    ∃ front, (path.join ⟨name⟩).text.toList = front ++ '/' :: name.toList ∧
      (path.join ⟨name⟩).isAbsolute = path.isAbsolute ∧
      ∀ place, path.pieces.foldl Workspace.step place =
        ((split front).map String.ofList).foldl Workspace.step place := by
  obtain ⟨front, text, absolute, isFront⟩ := exists_text_join nonempty proper.not_isAbsolute
  refine ⟨front, text, absolute, fun place => ?_⟩
  rcases isFront with isFront | isFront
  · rw [pieces, isFront, split_append_slash, List.map_append, List.foldl_append]
    rfl
  · rw [pieces, isFront]

theorem isEmpty_text_join (nonempty : path.text.isEmpty = false) (proper : IsProper name) :
    (path.join ⟨name⟩).text.isEmpty = false := by
  obtain ⟨front, text, -⟩ := exists_text_join nonempty proper.not_isAbsolute
  rw [Bool.eq_false_iff]
  intro isEmpty
  rw [String.isEmpty_iff.mp isEmpty] at text
  cases front <;> cases text

end Path

namespace Workspace

variable {files : Workspace} {path : Path}

/-! ### Joined names -/

/-- A path with a name joined to it spells out that name in the place of the path. -/
theorem placeOf_join (files : Workspace) {name : String}
    (nonempty : path.text.isEmpty = false) (proper : Path.IsProper name) :
    files.placeOf (path.join ⟨name⟩) = files.placeOf path ++ [name] := by
  obtain ⟨front, text, absolute, spells⟩ := Path.exists_join nonempty proper
  have pieces : (path.join ⟨name⟩).pieces = (Path.split front).map String.ofList ++ [name] := by
    rw [Path.pieces, text, Path.split_append_slash, Path.split_of_noSlash proper.2.2,
      List.map_append, List.map_singleton, String.ofList_toList]
  have whole : files.placeOf (path.join ⟨name⟩) =
      (path.join ⟨name⟩).pieces.foldl step (if (path.join ⟨name⟩).isAbsolute then [] else files.here) :=
    rfl
  rw [whole, pieces, absolute, List.foldl_append, ← spells]
  exact proper.step _

/-- The path to what an expansion found below a directory spells out where it was found. -/
theorem placeOf_foldl_join (files : Workspace) {names : List String}
    (nonempty : path.text.isEmpty = false) (proper : ∀ name ∈ names, Path.IsProper name) :
    files.placeOf (names.foldl (fun path name => path.join ⟨name⟩) path) =
      files.placeOf path ++ names := by
  induction names generalizing path with
  | nil => rw [List.foldl_nil, List.append_nil]
  | cons name names inductionHypothesis =>
    have isProper := proper name List.mem_cons_self
    rw [List.foldl_cons, inductionHypothesis (Path.isEmpty_text_join nonempty isProper)
      fun other member => proper other (List.mem_cons_of_mem _ member),
      placeOf_join files nonempty isProper, List.append_assoc]
    rfl

/-- The names in a place that a path spells out are proper, as far as those are that relative paths
start from. -/
theorem isProper_of_mem_placeOf (proper : ∀ name ∈ files.here, Path.IsProper name) (path : Path) :
    ∀ name ∈ files.placeOf path, Path.IsProper name := by
  have spelled (pieces : List String) (noSlash : ∀ piece ∈ pieces, '/' ∉ piece.toList) :
      ∀ place, (∀ name ∈ place, Path.IsProper name) →
        ∀ name ∈ pieces.foldl step place, Path.IsProper name := by
    induction pieces with
    | nil => exact fun _ proper => proper
    | cons piece rest inductionHypothesis =>
      intro place proper
      refine inductionHypothesis (fun other member => noSlash other (List.mem_cons_of_mem _ member))
        _ fun name member => ?_
      rw [step] at member
      split at member
      · exact proper name member
      · next notIdle =>
        split at member
        · exact proper name (List.dropLast_subset _ member)
        · next notUp =>
          rcases List.mem_append.mp member with inPlace | isPiece
          · exact proper name inPlace
          · obtain rfl := List.mem_singleton.mp isPiece
            exact ⟨Bool.eq_false_iff.mpr notIdle, notUp, noSlash name List.mem_cons_self⟩
  refine spelled path.pieces (fun piece member => ?_) _ ?_
  · obtain ⟨chars, inSplit, rfl⟩ := List.mem_map.mp member
    rw [String.toList_ofList]
    exact Path.noSlash_of_mem_split inSplit
  · split
    · exact List.forall_mem_nil _
    · exact proper

end Workspace

end TagMigration
