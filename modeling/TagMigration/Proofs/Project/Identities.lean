/-
Identities and the files that they refer to. The identity of a template below the root of the
project leads back to that template, and is its identity again. An identity from elsewhere need
not: the file that it refers to may have another one, and under that one telemetry is asked. So it
is told apart which identities are found again under the files that they refer to.
-/
import TagMigration.Project.Config
import TagMigration.Proofs.Project.Components
import TagMigration.Proofs.Reading.Given
import TagMigration.Proofs.Telemetry.Supplied

namespace TagMigration

namespace Path

variable {path : Path} {body : List String} {piece : String}

/-! ### Paths in normal form -/

/-- The pieces of a path have no backslash if the path has none. -/
theorem plain_of_mem_pieces (plain : '\\' ∉ path.text.toList) (member : piece ∈ path.pieces) :
    '\\' ∉ piece.toList := by
  obtain ⟨chars, inSplit, rfl⟩ := List.mem_map.mp member
  rw [String.toList_ofList]
  exact fun inPiece => plain (forall_mem_of_mem_split inSplit _ inPiece).1

theorem plain_ofBody (plain : ∀ piece ∈ body, '\\' ∉ piece.toList) :
    '\\' ∉ (ofBody .none body).text.toList := by
  have each : ∀ char ∈ ['/'].intercalate (body.map String.toList), char ≠ '\\' := by
    refine forall_mem_intercalate (List.forall_mem_singleton.mpr (by decide)) ?_
    refine List.forall_mem_map.mpr fun piece member char inPiece isBackslash => ?_
    exact plain piece member (isBackslash ▸ inPiece)
  rw [ofBody, toList_intercalate]
  exact fun inside => each _ inside rfl

theorem text_ofBody_root (body : List String) :
    (ofBody .root body).text = "/" ++ (ofBody .none body).text :=
  rfl

/-- A path that begins with a piece that names something is relative. -/
theorem isAbsolute_ofBody (noSlash : ∀ piece ∈ body, '/' ∉ piece.toList)
    (busy : ∀ piece ∈ body.head?, isIdle piece = false) : (ofBody .none body).isAbsolute = false := by
  by_cases isEmpty : body = []
  · rw [isEmpty]
    rfl
  · refine Bool.eq_false_iff.mpr fun absolute => ?_
    have first := head?_of_isAbsolute absolute
    rw [pieces_ofBody isEmpty noSlash] at first
    cases busy "" first

/-- A path without backslashes that begins with a piece that names something is in normal form. -/
theorem normalise_ofBody (noSlash : ∀ piece ∈ body, '/' ∉ piece.toList)
    (plain : ∀ piece ∈ body, '\\' ∉ piece.toList)
    (busy : ∀ piece ∈ body.head?, isIdle piece = false) :
    Identity.normalise (ofBody .none body).text = (ofBody .none body).text := by
  refine Identity.normalise_eq_self_iff.mpr ⟨plain_ofBody plain, fun rest here => ?_⟩
  by_cases isEmpty : body = []
  · rw [isEmpty] at here
    cases here
  · have first := congrArg List.head? (pieces_ofBody isEmpty noSlash)
    have cut := split_append_slash ['.'] rest
    rw [pieces, here, show '.' :: '/' :: rest = ['.'] ++ '/' :: rest from rfl, cut] at first
    cases busy "." first.symm

/-- An absolute path without backslashes is in normal form. -/
theorem normalise_ofBody_root (plain : ∀ piece ∈ body, '\\' ∉ piece.toList) :
    Identity.normalise (ofBody .root body).text = (ofBody .root body).text := by
  refine Identity.normalise_eq_self_iff.mpr ⟨?_, fun rest here => ?_⟩
  · rw [text_ofBody_root, String.toList_append, List.mem_append]
    exact not_or.mpr ⟨by decide, plain_ofBody plain⟩
  · rw [text_ofBody_root, String.toList_append] at here
    cases here

/-- What is left of a path without backslashes below another one is relative and in normal form, has
no idle pieces at its ends, and names what the path goes on with. -/
theorem exists_left {base : Path} (nonempty : base.text.isEmpty = false)
    (plain : '\\' ∉ path.text.toList) (inside : base.components <+: path.components) :
    ∃ left : Path, path.strip? base = some left ∧ left.isAbsolute = false ∧
      Identity.normalise left.text = left.text ∧ ofBody .none (trimEnds left.pieces) = left ∧
      path.components = base.components ++ left.pieces.filterMap component? := by
  obtain ⟨rest, stripped, whole, fromPath⟩ := exists_strip? nonempty inside
  have kept (piece : String) (member : piece ∈ trimEnds rest) : piece ∈ path.pieces :=
    fromPath piece ((trimEnds_sublist rest).subset member)
  have noSlash (piece : String) (member : piece ∈ trimEnds rest) : '/' ∉ piece.toList :=
    noSlash_of_mem_pieces (kept piece member)
  have busy (piece : String) (first : piece ∈ (trimEnds rest).head?) : isIdle piece = false :=
    head?_trimEnds first
  have trimmed : trimEnds (ofBody .none (trimEnds rest)).pieces = trimEnds rest :=
    trimEnds_pieces_ofBody fun piece member => noSlash_of_mem_pieces (fromPath piece member)
  refine ⟨_, stripped, isAbsolute_ofBody noSlash busy, ?_, congrArg _ trimmed, ?_⟩
  · exact normalise_ofBody noSlash
      (fun piece member => plain_of_mem_pieces plain (kept piece member)) busy
  · rw [← filterMap_trimEnds (ofBody .none (trimEnds rest)).pieces, trimmed, filterMap_trimEnds,
      whole]

end Path

open TagMigration.Path

/-! ### From a template to its identity and back -/

/-- The file that a relative identity refers to has the identity without idle pieces at its ends. -/
theorem Config.identityFor_resolve {config : Config} {relative : Path}
    (nonempty : config.projectRoot.text.isEmpty = false) (isRelative : relative.isAbsolute = false) :
    config.identityFor (config.resolve relative.text) =
      Identity.normalise (ofBody .none (trimEnds relative.pieces)).text := by
  rw [resolve, if_neg (Bool.eq_false_iff.mp isRelative), identityFor,
    strip?_join nonempty isRelative]
  rfl

/-- Whether the last piece of a path names something. -/
def Path.endsBusy (path : Path) : Bool :=
  path.pieces.getLast?.any (!isIdle ·)

/-- Whether the file that an identity refers to has that identity. An absolute identity must not
lie below the root of the project, since the root is stripped off it. Any other identity must not
have idle pieces at its end. Nothing is stripped off at an empty root. -/
def Config.Recovers (config : Config) (identity : Path) : Prop :=
  if config.projectRoot.text = "" then
    identity.text ∈ ["", ".", "/"] ∨ identity.endsBusy = true
  else if identity.isAbsolute then ¬ config.projectRoot.components <+: identity.components
  else identity.text = "" ∨ identity.endsBusy = true

instance (config : Config) (identity : Path) : Decidable (config.Recovers identity) := by
  unfold Config.Recovers
  infer_instance

namespace Path

variable {path : Path}

/-- Without the idle pieces at its end a path is the same exactly if it is empty or there are none. -/
theorem ofBody_trimEnd_iff :
    ofBody .none (trimEnd path.pieces) = path ↔ path.text = "" ∨ path.endsBusy = true := by
  have last : path.pieces.getLast? = some (path.pieces.getLast path.pieces_ne_nil) :=
    List.getLast?_eq_some_getLast path.pieces_ne_nil
  rw [endsBusy, last, Option.any_some, Bool.not_eq_true', trimEnd_eq]
  by_cases isEmpty : path.pieces.rdropWhile isIdle = []
  · have idle := List.rdropWhile_eq_nil_iff.mp isEmpty _ (List.getLast_mem path.pieces_ne_nil)
    rw [isEmpty, idle]
    refine ⟨fun equal => .inl (equal ▸ rfl), fun same => ?_⟩
    exact congrArg Path.mk (same.resolve_right nofun).symm
  · have someText : path.text ≠ "" := by
      intro noText
      rw [pieces, noText] at isEmpty
      exact isEmpty rfl
    rw [or_iff_right someText, ← Bool.not_eq_true]
    refine Iff.trans ?_ (List.rdropWhile_eq_self_iff.trans
      ⟨fun busy => busy path.pieces_ne_nil, fun busy _ => busy⟩)
    refine ⟨fun equal => ?_, fun equal => by rw [equal, ofBody_pieces]⟩
    conv_rhs => rw [← equal]
    exact (pieces_ofBody isEmpty fun piece member =>
      noSlash_of_mem_pieces ((List.rdropWhile_prefix isIdle _).subset member)).symm

/-- The pieces of an absolute path are an empty one and those behind its first slash, which are its
body. -/
theorem exists_of_isAbsolute (absolute : path.isAbsolute = true) :
    ∃ rest : Path, path.text = "/" ++ rest.text ∧ path.pieces = "" :: rest.pieces ∧
      path.lead = .root ∧ path.body = rest.pieces := by
  obtain ⟨rest, text⟩ := isAbsolute_eq_true_iff.mp absolute
  have isLead : path.lead = .root := by rw [lead, if_pos absolute]
  have cut : path.pieces = "" :: (Path.mk (String.ofList rest)).pieces := by
    rw [pieces, pieces, text, split_cons_slash, String.toList_ofList]
    rfl
  refine ⟨⟨String.ofList rest⟩, ?_, cut, isLead, ?_⟩
  · rw [← String.toList_inj, text]
    simp only [String.toList_append, String.toList_ofList]
    rfl
  · rw [body, isLead]
    simp only [cut, List.drop_one, List.tail_cons]

/-- A relative path that begins with a piece that names something has no lead. -/
theorem lead_of_busy (isRelative : path.isAbsolute = false)
    (busy : ∀ piece ∈ path.pieces.head?, isIdle piece = false) :
    path.lead = .none ∧ path.body = path.pieces := by
  have notHere : path.pieces.head? ≠ some "." := fun here => by cases busy "." here
  have isLead : path.lead = .none := by
    rw [lead, if_neg (Bool.eq_false_iff.mp isRelative), if_neg notHere]
  exact ⟨isLead, by rw [body, isLead]⟩

theorem strip?_empty : path.strip? ⟨""⟩ = some (ofBody path.lead (trimEnd path.body)) := by
  have noComponents : (Path.mk "").components = [] := by decide
  rw [strip?, noComponents]

/-- A relative path in normal form is empty, a dot, or it begins with a piece that names something. -/
theorem cases_of_fixed (fixed : Identity.normalise path.text = path.text)
    (isRelative : path.isAbsolute = false) :
    path = ⟨""⟩ ∨ path = ⟨"."⟩ ∨ ∀ piece ∈ path.pieces.head?, isIdle piece = false := by
  obtain ⟨first, more, cut⟩ := List.exists_cons_of_ne_nil path.pieces_ne_nil
  have text := ofBody_pieces path
  rw [cut] at text ⊢
  by_cases idle : isIdle first = true
  · rcases isIdle_iff.mp idle with rfl | rfl
    · exact .inl (congrArg Path.mk (text_eq_of_head? isRelative (by rw [cut, List.head?_cons])))
    · cases more with
      | nil => exact .inr (.inl text.symm)
      | cons second more =>
        have chars : path.text.toList =
            ['/'].intercalate (("." :: second :: more).map String.toList) := by
          rw [← toList_intercalate]
          exact congrArg String.toList (congrArg Path.text text).symm
        rw [List.map_cons, List.map_cons, List.intercalate_cons_cons] at chars
        exact absurd chars ((Identity.normalise_eq_self_iff.mp fixed).2 _)
  · exact .inr (.inr (by simpa using idle))

/-- A path in normal form that begins with a piece that names something has idle pieces at its end
only, and without these it is in normal form. -/
theorem trimEnds_of_busy (fixed : Identity.normalise path.text = path.text)
    (busy : ∀ piece ∈ path.pieces.head?, isIdle piece = false) :
    trimEnds path.pieces = trimEnd path.pieces ∧
      Identity.normalise (ofBody .none (trimEnd path.pieces)).text =
        (ofBody .none (trimEnd path.pieces)).text := by
  have plain := (Identity.normalise_eq_self_iff.mp fixed).1
  have starts : trimEnd path.pieces <+: path.pieces := List.rdropWhile_prefix isIdle _
  constructor
  · obtain ⟨first, more, cut⟩ := List.exists_cons_of_ne_nil path.pieces_ne_nil
    rw [cut] at busy ⊢
    rw [trimEnds, List.dropWhile_cons_of_neg (Bool.eq_false_iff.mp (busy first rfl))]
  · exact normalise_ofBody (fun piece member => noSlash_of_mem_pieces (starts.subset member))
      (fun piece member => plain_of_mem_pieces plain (starts.subset member))
      fun piece first => busy piece (head?_trimEnd first)

end Path

namespace Config

variable {config : Config} {identity : Path}

/-- Below an empty root the file that an identity refers to is the identity as a path. Its own
identity is the path without the idle pieces at its end. -/
theorem identityFor_resolve_rootless (rootless : config.projectRoot.text = "") :
    config.identityFor (config.resolve identity.text) =
      Identity.normalise (ofBody identity.lead (trimEnd identity.body)).text := by
  have root : config.projectRoot = ⟨""⟩ := congrArg Path.mk rootless
  have resolved : config.resolve identity.text = identity := by
    rw [resolve, root, join]
    simp
  rw [identityFor, resolved, root, strip?_empty, Option.getD_some]

theorem recovers_of_rootless (fixed : Identity.normalise identity.text = identity.text)
    (rootless : config.projectRoot.text = "") :
    config.identityFor (config.resolve identity.text) = identity.text ↔
      config.Recovers identity := by
  rw [identityFor_resolve_rootless rootless, Recovers, if_pos rootless]
  cases absolute : identity.isAbsolute with
  | true =>
    obtain ⟨rest, text, cut, isLead, isBody⟩ := exists_of_isAbsolute absolute
    have plain := (Identity.normalise_eq_self_iff.mp fixed).1
    have normal : Identity.normalise (ofBody .root (trimEnd rest.pieces)).text =
        (ofBody .root (trimEnd rest.pieces)).text := by
      refine normalise_ofBody_root fun piece member => plain_of_mem_pieces plain ?_
      exact cut ▸ List.mem_cons_of_mem _ ((List.rdropWhile_prefix isIdle _).subset member)
    have last : identity.endsBusy = rest.endsBusy := by
      rw [endsBusy, endsBusy, cut, List.getLast?_cons_of_ne_nil rest.pieces_ne_nil]
    have isSlash : "/" ++ rest.text ∈ ["", ".", "/"] ↔ rest.text = "" := by
      simp only [List.mem_cons, List.not_mem_nil, or_false, ← String.toList_inj,
        String.toList_append]
      simp
    rw [isLead, isBody, normal, last, text, isSlash, ← ofBody_trimEnd_iff, text_ofBody_root,
      String.append_right_inj]
    exact ⟨congrArg Path.mk, congrArg Path.text⟩
  | false =>
    rcases cases_of_fixed fixed absolute with rfl | rfl | busy
    · exact iff_of_true (by decide) (.inl (by simp))
    · exact iff_of_true (by decide) (.inl (by simp))
    · obtain ⟨isLead, isBody⟩ := lead_of_busy absolute busy
      have isEmpty : identity.text ∈ ["", ".", "/"] ↔ identity.text = "" := by
        refine ⟨fun listed => ?_, fun noText => by simp [noText]⟩
        simp only [List.mem_cons, List.not_mem_nil, or_false] at listed
        rcases listed with noText | here | slash
        · exact noText
        · cases busy "." (by rw [pieces, here]; rfl)
        · rw [isAbsolute, slash] at absolute
          cases absolute
      rw [isLead, isBody, isEmpty, (trimEnds_of_busy fixed busy).2, ← ofBody_trimEnd_iff]
      exact ⟨congrArg Path.mk, congrArg Path.text⟩

theorem recovers_of_root (fixed : Identity.normalise identity.text = identity.text)
    (rooted : config.projectRoot.text ≠ "") :
    config.identityFor (config.resolve identity.text) = identity.text ↔
      config.Recovers identity := by
  have nonempty : config.projectRoot.text.isEmpty = false := by
    simpa [Bool.eq_false_iff] using rooted
  have plain := (Identity.normalise_eq_self_iff.mp fixed).1
  rw [Recovers, if_neg rooted]
  cases absolute : identity.isAbsolute with
  | true =>
    rw [resolve, if_pos absolute, identityFor, if_pos rfl]
    by_cases inside : config.projectRoot.components <+: identity.components
    · obtain ⟨left, stripped, isRelative, normal, -⟩ := exists_left nonempty plain inside
      refine iff_of_false (fun same => ?_) (not_not.mpr inside)
      rw [stripped, Option.getD_some, normal] at same
      rw [show left = identity from congrArg Path.mk same, absolute] at isRelative
      cases isRelative
    · exact iff_of_true (by rw [strip?_eq_none nonempty inside]; exact fixed) inside
  | false =>
    rw [identityFor_resolve nonempty absolute, if_neg Bool.false_ne_true]
    rcases cases_of_fixed fixed absolute with rfl | rfl | busy
    · exact iff_of_true (by decide) (.inl rfl)
    · exact iff_of_false (by decide) (by decide)
    · obtain ⟨trimmed, normal⟩ := trimEnds_of_busy fixed busy
      rw [trimmed, normal, ← ofBody_trimEnd_iff]
      exact ⟨congrArg Path.mk, congrArg Path.text⟩

theorem recovers_iff (fixed : Identity.normalise identity.text = identity.text) :
    config.identityFor (config.resolve identity.text) = identity.text ↔
      config.Recovers identity := by
  by_cases rootless : config.projectRoot.text = ""
  · exact recovers_of_rootless fixed rootless
  · exact recovers_of_root fixed rootless

end Config

/-- Of the identities that an aggregate stores names under, exactly those that are recovered are
looked up under themselves when the files that they refer to are rewritten; and then the names that
are found are those that are stored. -/
theorem confirmedFor_resolve (config : Config) (feeds : List Feed) (identity : String)
    (names : List String) (stored : (identity, names) ∈ (Feed.build feeds).toDatalet) :
    (config.identityFor (config.resolve identity) = identity ↔ config.Recovers ⟨identity⟩) ∧
      (config.Recovers ⟨identity⟩ →
        (Feed.build feeds).confirmedFor (config.identityFor (config.resolve identity)) = names) := by
  have sound : (Feed.build feeds).Sound := Feed.sound_applyAll Aggregate.sound_empty feeds
  obtain ⟨fixed, confirmed, -⟩ := sound.mem_toDatalet stored
  have same : config.identityFor (config.resolve identity) = identity ↔
      config.Recovers ⟨identity⟩ := @Config.recovers_iff config ⟨identity⟩ fixed
  refine ⟨same, fun recovers => ?_⟩
  rw [same.mpr recovers, ← confirmed]

/-- A relative identity with a slash too many, an absolute one from elsewhere, and another spelling. -/
def slashedFeeds : List Feed :=
  [.record ".\\./a//b.hbs" "foo", .report [("/srv/apps/c.hbs", ["bar"]), ("a//b.hbs", ["baz"])]]

theorem confirmedFor_resolve_slashedFeeds :
    let config : Config := ⟨⟨"/srv/app/"⟩, ⟨"h.js"⟩, ["hbs"], false⟩
    config.resolve "a//b.hbs" = ⟨"/srv/app/a//b.hbs"⟩ ∧
      (Feed.build slashedFeeds).confirmedFor (config.identityFor (config.resolve "a//b.hbs")) =
        ["baz", "foo"] ∧
      (Feed.build slashedFeeds).confirmedFor
        (config.identityFor (config.resolve "/srv/apps/c.hbs")) = ["bar"] := by
  intro config
  have relative := confirmedFor_resolve config slashedFeeds "a//b.hbs" ["baz", "foo"]
    (by decide +kernel)
  have absolute := confirmedFor_resolve config slashedFeeds "/srv/apps/c.hbs" ["bar"]
    (by decide +kernel)
  exact ⟨by decide +kernel, relative.2 (by decide +kernel), absolute.2 (by decide +kernel)⟩

/-- An absolute identity below the root of the project refers to the file of that path. The file has
a relative identity, under which nothing is stored. -/
theorem confirmedFor_resolve_absolute :
    let config : Config := { Config.default with projectRoot := ⟨"/srv/app"⟩ }
    let aggregate := Feed.build [.record "/srv/app/a.hbs" "foo"]
    ("/srv/app/a.hbs", ["foo"]) ∈ aggregate.toDatalet ∧
      config.resolve "/srv/app/a.hbs" = ⟨"/srv/app/a.hbs"⟩ ∧
      config.identityFor (config.resolve "/srv/app/a.hbs") = "a.hbs" ∧
      aggregate.confirmedFor (config.identityFor (config.resolve "/srv/app/a.hbs")) = [] := by
  decide +kernel

end TagMigration
