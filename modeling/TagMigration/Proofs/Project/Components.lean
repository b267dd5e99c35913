/-
Paths by their components. What names nothing in a path does not count: a path that is joined to
another one goes on where the components of the other end, and what is stripped off a path is found
by its components. So stripping undoes joining, however the two paths are spelled, up to the pieces
at either end of the joined path that name nothing.
-/
import TagMigration.Proofs.Project.Names
import Mathlib.Data.List.DropRight

namespace TagMigration.Path

/-! ### Pieces put together -/

theorem split_ne_nil (text : List Char) : split text ≠ [] := by
  cases text with
  | nil => exact nofun
  | cons char rest =>
    by_cases isSlash : char = '/'
    · rw [isSlash, split_cons_slash]
      exact nofun
    · obtain ⟨first, more, -, whole⟩ := exists_split_cons isSlash rest
      rw [whole]
      exact nofun

/-- Pieces with slashes between them are cut into these pieces. -/
theorem split_intercalate : ∀ {parts : List (List Char)}, parts ≠ [] →
    (∀ part ∈ parts, '/' ∉ part) → split (['/'].intercalate parts) = parts
  | [], nonempty, _ => absurd rfl nonempty
  | [part], _, noSlash => by
    rw [List.intercalate_singleton, split_of_noSlash (noSlash part List.mem_cons_self)]
  | part :: second :: rest, _, noSlash => by
    obtain ⟨notInPart, notInRest⟩ := List.forall_mem_cons.mp noSlash
    rw [List.intercalate_cons_cons, List.append_assoc, List.singleton_append, split_append_slash,
      split_of_noSlash notInPart, split_intercalate (List.cons_ne_nil _ _) notInRest]
    rfl

/-- A text that was cut is put together again. -/
theorem intercalate_split (text : List Char) : ['/'].intercalate (split text) = text := by
  induction text with
  | nil => rfl
  | cons char rest inductionHypothesis =>
    by_cases isSlash : char = '/'
    · obtain ⟨first, more, cut⟩ := List.exists_cons_of_ne_nil (split_ne_nil rest)
      rw [isSlash, split_cons_slash, cut, List.intercalate_cons_cons, ← cut, inductionHypothesis]
      rfl
    · obtain ⟨first, more, cut, whole⟩ := exists_split_cons isSlash rest
      rw [cut] at inductionHypothesis
      rw [whole, ← inductionHypothesis]
      cases more with
      | nil => rw [List.intercalate_singleton, List.intercalate_singleton]
      | cons second more =>
        rw [List.intercalate_cons_cons, List.intercalate_cons_cons]
        rfl

variable {path base relative : Path} {body : List String} {piece : String}

theorem noSlash_of_mem_pieces (member : piece ∈ path.pieces) : '/' ∉ piece.toList := by
  obtain ⟨chars, inSplit, rfl⟩ := List.mem_map.mp member
  rw [String.toList_ofList]
  exact noSlash_of_mem_split inSplit

theorem toList_intercalate (body : List String) :
    ("/".intercalate body).toList = ['/'].intercalate (body.map String.toList) :=
  String.toList_intercalate

theorem pieces_ofBody (nonempty : body ≠ []) (noSlash : ∀ piece ∈ body, '/' ∉ piece.toList) :
    (ofBody .none body).pieces = body := by
  rw [pieces, ofBody, toList_intercalate, split_intercalate (mt List.map_eq_nil_iff.mp nonempty)
    (List.forall_mem_map.mpr noSlash), List.map_map]
  simp only [Function.comp_def, String.ofList_toList, List.map_id_fun', id_eq]

theorem ofBody_pieces (path : Path) : ofBody .none path.pieces = path := by
  have text : "/".intercalate path.pieces = path.text := by
    rw [← String.toList_inj, toList_intercalate, pieces, List.map_map]
    simp only [Function.comp_def, String.toList_ofList, List.map_id_fun', id_eq, intercalate_split]
  exact congrArg Path.mk text

theorem pieces_ne_nil (path : Path) : path.pieces ≠ [] :=
  mt List.map_eq_nil_iff.mp (split_ne_nil _)

theorem isAbsolute_eq_true_iff : path.isAbsolute = true ↔ ∃ rest, path.text.toList = '/' :: rest := by
  rw [isAbsolute, List.isPrefixOf_iff_prefix]
  exact exists_congr fun rest => eq_comm

/-- An absolute path begins with an empty piece. -/
theorem head?_of_isAbsolute (absolute : path.isAbsolute = true) :
    path.pieces.head? = some "" := by
  obtain ⟨rest, text⟩ := isAbsolute_eq_true_iff.mp absolute
  rw [pieces, text, split_cons_slash]
  rfl

/-- Only an absolute path and an empty one begin with an empty piece. -/
theorem text_eq_of_head? (isRelative : path.isAbsolute = false)
    (first : path.pieces.head? = some "") : path.text = "" := by
  cases text : path.text.toList with
  | nil => exact String.toList_eq_nil_iff.mp text
  | cons char rest =>
    have noSlash : char ≠ '/' := by
      rintro rfl
      rw [isAbsolute_eq_true_iff.mpr ⟨rest, text⟩] at isRelative
      cases isRelative
    obtain ⟨one, more, -, whole⟩ := exists_split_cons noSlash rest
    rw [pieces, text, whole, List.map_cons, List.head?_cons, Option.some.injEq,
      ← String.toList_inj, String.toList_ofList] at first
    cases first

/-! ### Idle pieces -/

theorem isIdle_iff : isIdle piece = true ↔ piece = "" ∨ piece = "." := by
  simp only [isIdle, Bool.or_eq_true, beq_iff_eq]

theorem component?_eq_none_iff : component? piece = none ↔ isIdle piece = true := by
  rw [component?]
  split
  · next idle => exact iff_of_true rfl idle
  · next busy =>
    refine iff_of_false ?_ busy
    split <;> exact nofun

theorem trimEnd_eq (body : List String) : trimEnd body = body.rdropWhile isIdle :=
  rfl

/-- Idle pieces in front do not count. -/
theorem trimEnds_append {gap : List String} (idle : ∀ piece ∈ gap, isIdle piece = true)
    (rest : List String) : trimEnds (gap ++ rest) = trimEnds rest := by
  rw [trimEnds, List.dropWhile_append_of_pos idle, trimEnds]

theorem trimEnds_sublist (body : List String) : (trimEnds body).Sublist body :=
  (List.rdropWhile_prefix isIdle _).sublist.trans (List.dropWhile_sublist isIdle)

theorem head?_trimEnd (first : (trimEnd body).head? = some piece) : body.head? = some piece := by
  obtain ⟨more, starts⟩ := List.rdropWhile_prefix isIdle body
  rw [← starts, List.head?_append, ← trimEnd_eq, first]
  rfl

theorem head?_trimEnds (first : (trimEnds body).head? = some piece) : isIdle piece = false := by
  simpa [head?_trimEnd first] using List.head?_dropWhile_not isIdle body

theorem trimEnds_trimEnds (body : List String) : trimEnds (trimEnds body) = trimEnds body := by
  have front : (trimEnds body).dropWhile isIdle = trimEnds body := by
    cases shape : trimEnds body with
    | nil => rfl
    | cons piece rest =>
      have busy : isIdle piece = false := head?_trimEnds (by rw [shape, List.head?_cons])
      rw [List.dropWhile_cons_of_neg (Bool.eq_false_iff.mp busy)]
  rw [trimEnds, front, trimEnds, trimEnd_eq, trimEnd_eq, List.rdropWhile_idempotent]

theorem filterMap_of_idle (idle : ∀ piece ∈ body, isIdle piece = true) :
    body.filterMap component? = [] :=
  List.filterMap_eq_nil_iff.mpr fun piece member => component?_eq_none_iff.mpr (idle piece member)

/-- Idle pieces at the ends name nothing. -/
theorem filterMap_trimEnds (body : List String) :
    (trimEnds body).filterMap component? = body.filterMap component? := by
  have front : (body.dropWhile isIdle).filterMap component? = body.filterMap component? := by
    conv_rhs => rw [← @List.takeWhile_append_dropWhile _ isIdle body, List.filterMap_append,
      filterMap_of_idle fun _ => List.mem_takeWhile_imp, List.nil_append]
  have back (rest : List String) : (trimEnd rest).filterMap component? =
      rest.filterMap component? := by
    induction rest using List.reverseRecOn with
    | nil => rfl
    | append_singleton rest piece inductionHypothesis =>
      rw [trimEnd_eq, List.rdropWhile_concat]
      split
      · next idle =>
        rw [← trimEnd_eq, inductionHypothesis, List.filterMap_append,
          filterMap_of_idle (List.forall_mem_singleton.mpr idle), List.append_nil]
      · rfl
  rw [trimEnds, back, front]

/-- The pieces of a trimmed path are trimmed. An empty path has one piece, which is idle. -/
theorem trimEnds_pieces_ofBody (noSlash : ∀ piece ∈ body, '/' ∉ piece.toList) :
    trimEnds (ofBody .none (trimEnds body)).pieces = trimEnds body := by
  by_cases isEmpty : trimEnds body = []
  · rw [isEmpty]
    rfl
  · rw [pieces_ofBody isEmpty fun piece member => noSlash piece ((trimEnds_sublist body).subset member),
      trimEnds_trimEnds]

/-! ### Components -/

theorem named_of_mem_filterMap {component : Component}
    (member : component ∈ body.filterMap component?) : component ≠ .root ∧ component ≠ .here := by
  obtain ⟨piece, -, named⟩ := List.mem_filterMap.mp member
  rw [component?] at named
  split at named
  · cases named
  · split at named <;> cases named <;> exact ⟨nofun, nofun⟩

/-- Every path but the empty one has a component. -/
theorem components_ne_nil (nonempty : path.text.isEmpty = false) : path.components ≠ [] := by
  intro noComponents
  obtain ⟨noLead, noNames⟩ := List.append_eq_nil_iff.mp noComponents
  rw [lead] at noLead
  split at noLead
  · cases noLead
  · next notAbsolute =>
    split at noLead
    · cases noLead
    · next notHere =>
      have isLead : path.lead = .none := by rw [lead, if_neg notAbsolute, if_neg notHere]
      obtain ⟨first, more, cut⟩ := List.exists_cons_of_ne_nil path.pieces_ne_nil
      have inBody : first ∈ path.body := by
        rw [body, isLead]
        simp only [cut, List.mem_cons, true_or]
      have idle := component?_eq_none_iff.mp (List.filterMap_eq_nil_iff.mp noNames first inBody)
      rw [cut, List.head?_cons] at notHere
      obtain rfl : first = "" :=
        (isIdle_iff.mp idle).resolve_right fun isHere => notHere (congrArg some isHere)
      rw [text_eq_of_head? (Bool.eq_false_iff.mpr notAbsolute) (by rw [cut, List.head?_cons])]
        at nonempty
      cases nonempty

/-- Components that begin with others begin with the same lead, since no piece stands for a lead. -/
theorem prefix_lead_append_iff {lead other : Lead} {names others : List Component}
    (nonempty : leadComponents lead ++ names ≠ [])
    (namesNamed : ∀ name ∈ names, name ≠ .root ∧ name ≠ .here)
    (othersNamed : ∀ name ∈ others, name ≠ .root ∧ name ≠ .here) :
    leadComponents lead ++ names <+: leadComponents other ++ others ↔
      lead = other ∧ names <+: others := by
  cases lead with
  | none =>
    obtain ⟨name, more, rfl⟩ := List.exists_cons_of_ne_nil nonempty
    obtain ⟨notRoot, notHere⟩ := namesNamed name List.mem_cons_self
    cases other <;> simp [leadComponents, notRoot, notHere]
  | root =>
    have notNamed : ¬ Component.root :: names <+: others := fun starts =>
      (othersNamed _ (starts.subset List.mem_cons_self)).1 rfl
    cases other <;> simp [leadComponents, notNamed]
  | here =>
    have notNamed : ¬ Component.here :: names <+: others := fun starts =>
      (othersNamed _ (starts.subset List.mem_cons_self)).2 rfl
    cases other <;> simp [leadComponents, notNamed]

/-- A path begins with the components of another one if both have the same lead and the names go on
as those of the other path do. -/
theorem components_prefix_iff (nonempty : base.text.isEmpty = false) :
    base.components <+: path.components ↔ base.lead = path.lead ∧
      base.body.filterMap component? <+: path.body.filterMap component? :=
  prefix_lead_append_iff (components_ne_nil nonempty) (fun _ => named_of_mem_filterMap)
    fun _ => named_of_mem_filterMap

/-! ### What follows given components -/

theorem exists_of_afterComponents {wanted : List Component} {rest : List String}
    (success : afterComponents body wanted = some rest) :
    ∃ front, body = front ++ rest ∧ front.filterMap component? = wanted := by
  fun_induction afterComponents body wanted with
  | case1 body => exact ⟨[], Option.some.inj success, rfl⟩
  | case2 => cases success
  | case3 piece body wanted more idle inductionHypothesis =>
    obtain ⟨front, rfl, named⟩ := inductionHypothesis success
    exact ⟨piece :: front, rfl, by rw [List.filterMap_cons_none idle, named]⟩
  | case4 piece body more found isFound inductionHypothesis =>
    obtain ⟨front, rfl, named⟩ := inductionHypothesis success
    exact ⟨piece :: front, rfl, by rw [List.filterMap_cons_some isFound, named]⟩
  | case5 => cases success

/-- Behind pieces with the given components, at most idle pieces are left of them. -/
theorem afterComponents_append (front rest : List String) :
    ∃ gap, afterComponents (front ++ rest) (front.filterMap component?) = some (gap ++ rest) ∧
      ∀ piece ∈ gap, isIdle piece = true := by
  induction front with
  | nil => exact ⟨[], by rw [List.filterMap_nil, afterComponents], List.forall_mem_nil _⟩
  | cons piece front inductionHypothesis =>
    obtain ⟨gap, after, idle⟩ := inductionHypothesis
    cases named : component? piece with
    | none =>
      rw [List.filterMap_cons_none named]
      cases wanted : front.filterMap component? with
      | nil =>
        rw [wanted, afterComponents, Option.some.injEq] at after
        refine ⟨piece :: gap, by rw [afterComponents, List.cons_append, after]; rfl, ?_⟩
        exact List.forall_mem_cons.mpr ⟨component?_eq_none_iff.mp named, idle⟩
      | cons first more =>
        refine ⟨gap, ?_, idle⟩
        rw [List.cons_append, afterComponents, named]
        simpa only [wanted] using after
    | some found =>
      refine ⟨gap, ?_, idle⟩
      rw [List.filterMap_cons_some named, List.cons_append, afterComponents, named]
      simpa only [if_true] using after

theorem exists_afterComponents {wanted : List Component}
    (starts : wanted <+: body.filterMap component?) :
    ∃ rest, afterComponents body wanted = some rest := by
  obtain ⟨front, ⟨rest, rfl⟩, rfl⟩ := List.prefix_filterMap_iff.mp starts
  obtain ⟨gap, after, -⟩ := afterComponents_append front rest
  exact ⟨gap ++ rest, after⟩

/-! ### Stripping -/

/-- Another path is stripped off in two steps: the leads are compared, then the names. -/
theorem strip?_eq (nonempty : base.text.isEmpty = false) :
    path.strip? base = if base.lead = path.lead then
      (afterComponents path.body (base.body.filterMap component?)).map fun rest =>
        ofBody .none (trimEnds rest) else none := by
  have someBase := components_ne_nil nonempty
  have named := @named_of_mem_filterMap base.body
  have unnamed {first : Component} {more : List Component} (notNamed : first = .root ∨ first = .here) :
      afterComponents path.body (first :: more) = none := by
    refine Option.eq_none_iff_forall_ne_some.mpr fun rest success => ?_
    obtain ⟨front, -, names⟩ := exists_of_afterComponents success
    obtain ⟨notRoot, notHere⟩ := @named_of_mem_filterMap front first (names ▸ List.mem_cons_self)
    exact notNamed.elim notRoot notHere
  rw [strip?]
  simp only [components] at someBase ⊢
  generalize base.body.filterMap component? = names, base.lead = lead at *
  cases lead with
  | none =>
    obtain ⟨name, more, rfl⟩ := List.exists_cons_of_ne_nil someBase
    obtain ⟨notRoot, notHere⟩ := named List.mem_cons_self
    cases path.lead <;> simp [leadComponents, notRoot.symm, notHere.symm]
  | root => cases path.lead <;> simp [leadComponents, unnamed]
  | here => cases path.lead <;> simp [leadComponents, unnamed]

/-- What is left of a path below another one, and that it is what the path goes on with. -/
theorem exists_strip? (nonempty : base.text.isEmpty = false)
    (inside : base.components <+: path.components) :
    ∃ rest, path.strip? base = some (ofBody .none (trimEnds rest)) ∧
      path.components = base.components ++ rest.filterMap component? ∧
      ∀ piece ∈ rest, piece ∈ path.pieces := by
  obtain ⟨sameLead, starts⟩ := (components_prefix_iff nonempty).mp inside
  obtain ⟨rest, after⟩ := exists_afterComponents starts
  obtain ⟨front, isBody, names⟩ := exists_of_afterComponents after
  refine ⟨rest, ?_, ?_, fun piece member => ?_⟩
  · rw [strip?_eq nonempty, if_pos sameLead, after]
    rfl
  · rw [components, components, isBody, List.filterMap_append, names, sameLead, List.append_assoc]
  · have inBody : piece ∈ path.body := isBody ▸ List.mem_append_right front member
    rw [Path.body] at inBody
    split at inBody
    · exact inBody
    · exact List.mem_of_mem_drop inBody
    · exact List.mem_of_mem_drop inBody

theorem strip?_eq_none (nonempty : base.text.isEmpty = false)
    (outside : ¬ base.components <+: path.components) : path.strip? base = none := by
  rw [strip?_eq nonempty]
  split
  · next sameLead =>
    refine Option.map_eq_none_iff.mpr (Option.eq_none_iff_forall_ne_some.mpr fun rest success => ?_)
    obtain ⟨front, isBody, names⟩ := exists_of_afterComponents success
    refine outside ((components_prefix_iff nonempty).mpr ⟨sameLead, ?_⟩)
    rw [isBody, List.filterMap_append, names]
    exact List.prefix_append _ _
  · rfl

/-! ### Joining -/

/-- A relative path that is joined to another one adds its pieces behind the body of the other. -/
theorem exists_body_join (nonempty : base.text.isEmpty = false)
    (isRelative : relative.isAbsolute = false) :
    (base.join relative).lead = base.lead ∧ ∃ front,
      (base.join relative).body = front ++ relative.pieces ∧
      front.filterMap component? = base.body.filterMap component? := by
  obtain ⟨text, isText, sameRoot, isBase⟩ := exists_text_join nonempty isRelative
  obtain ⟨first, more, cut⟩ : ∃ first more, (split text).map String.ofList = first :: more :=
    List.exists_cons_of_ne_nil (mt List.map_eq_nil_iff.mp (split_ne_nil text))
  have joined : (base.join relative).pieces = first :: (more ++ relative.pieces) := by
    rw [pieces, isText, split_append_slash, List.map_append, cut]
    rfl
  obtain ⟨slash, isPieces, idle⟩ : ∃ slash, base.pieces = first :: (more ++ slash) ∧
      slash.filterMap component? = [] := by
    rcases isBase with isBase | isBase
    · refine ⟨[""], ?_, rfl⟩
      rw [pieces, isBase, split_append_slash, List.map_append, cut]
      rfl
    · exact ⟨[], by rw [pieces, isBase, cut, List.append_nil], rfl⟩
  have sameLead : (base.join relative).lead = base.lead := by
    rw [lead, lead, sameRoot, joined, isPieces, List.head?_cons, List.head?_cons]
  refine ⟨sameLead, ?_⟩
  rw [Path.body, Path.body, sameLead, joined, isPieces]
  cases base.lead with
  | none => exact ⟨first :: more, rfl, by simp [List.filterMap_cons, idle]⟩
  | root => exact ⟨more, rfl, by simp [idle]⟩
  | here => exact ⟨more, rfl, by simp [idle]⟩

/-- A joined path has the components of both paths. -/
theorem components_join (nonempty : base.text.isEmpty = false)
    (isRelative : relative.isAbsolute = false) :
    (base.join relative).components =
      base.components ++ relative.pieces.filterMap component? := by
  obtain ⟨sameLead, front, isBody, names⟩ := exists_body_join nonempty isRelative
  rw [components, components, sameLead, isBody, List.filterMap_append, names, List.append_assoc]

/-- Stripping undoes joining, up to idle pieces at either end. -/
theorem strip?_join (nonempty : base.text.isEmpty = false)
    (isRelative : relative.isAbsolute = false) :
    (base.join relative).strip? base = some (ofBody .none (trimEnds relative.pieces)) := by
  obtain ⟨sameLead, front, isBody, names⟩ := exists_body_join nonempty isRelative
  obtain ⟨gap, after, idle⟩ := afterComponents_append front relative.pieces
  rw [strip?_eq nonempty, if_pos sameLead.symm, isBody, ← names, after, Option.map_some,
    trimEnds_append idle]

end TagMigration.Path
