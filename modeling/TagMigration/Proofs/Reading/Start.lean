/-
The start tag of an element is read up to its closing angle bracket and no further. What stands next
in it is settled before the bracket is over, and each kind of piece can be put in front of the rest
of a tag that ends.
-/
import TagMigration.Proofs.Reading.Attribute

namespace TagMigration.Reader

/-! ### The whole tag -/

/-- What stands next in a start tag. -/
inductive TagPiece where
  | nothing
  | slash
  | bracket
  | comment
  | modifier
  | params (intro : Nat)
  | attr

/-- The kind of the next piece of a start tag. -/
def tagPiece (text : List Char) : TagPiece :=
  if text.isEmpty then .nothing
  else if ['/', '>'].isPrefixOf text then .slash
  else if ['>'].isPrefixOf text then .bracket
  else if ['{', '{', '!'].isPrefixOf text || ['{', '{', '~', '!'].isPrefixOf text then .comment
  else if ['{', '{'].isPrefixOf text then .modifier
  else
    match paramsIntro? text with
    | some intro => .params intro
    | none => .attr

/-- The kind of a piece is settled before the closing angle bracket is over. -/
theorem tagPiece_stop (front back other : List Char) :
    tagPiece (front ++ '>' :: back) = tagPiece (front ++ '>' :: other) := by
  have filled (rest : List Char) : (front ++ '>' :: rest).isEmpty = false := by simp
  simp only [tagPiece, filled]
  rw [isPrefixOf_stop (by decide) back other, isPrefixOf_stop (by decide) back other,
    isPrefixOf_stop (by decide) back other, isPrefixOf_stop (by decide) back other,
    isPrefixOf_stop (by decide) back other, paramsIntro?_stop (by decide) (by decide) back other]

section StartTag

variable {tag : String} {begin offset : Nat} {inside : List Char} {start : StartTag}

theorem startTag_blank (size : Nat) {blanks text : List Char}
    (blank : ∀ char ∈ blanks, isBlank char = true) (halts : Halts isBlank text) :
    startTag tag begin (size + 1) ⟨offset, blanks ++ text⟩ =
      startTag tag begin (size + 1) ⟨offset + byteSize blanks, text⟩ := by
  rw [startTag, startTag, Cursor.skipBlanks_append offset blank halts,
    Cursor.skipBlanks_of_halts _ halts]

/-- One step of the reader of a start tag in front of something that is not blank. -/
theorem startTag_succ (size : Nat) {text : List Char} (halts : Halts isBlank text) :
    startTag tag begin (size + 1) ⟨offset, text⟩ =
      match tagPiece text with
      | .nothing => fault begin (.unclosedStartTag tag)
      | .slash => .ok (⟨[], [], [], true⟩, (⟨offset, text⟩ : Cursor).skip 2)
      | .bracket => .ok (⟨[], [], [], false⟩, (⟨offset, text⟩ : Cursor).skip 1)
      | .comment => (do
        let (_, after) ←
          curlyComment ⟨offset, text⟩ ((⟨offset, text⟩ : Cursor).skip 2).eatTilde.2
        startTag tag begin size after)
      | .modifier => (do
        let (parts, after) ←
          tagCall .braces offset ((⟨offset, text⟩ : Cursor).skip 2).eatTilde.2
        let (more, last) ← startTag tag begin size after
        .ok ({ more with modifiers := ⟨parts.call, some ⟨offset, after.offset⟩⟩ :: more.modifiers },
          last))
      | .params intro => (do
        let (params, after) ← blockParams ((⟨offset, text⟩ : Cursor).skip intro)
        let (more, after) ← startTag tag begin size after
        .ok ({ more with params := if more.params.isEmpty then params else more.params }, after))
      | .attr => (do
        let (first, after) ← attr tag ⟨offset, text⟩
        let (more, after) ← startTag tag begin size after
        .ok ({ more with attributes := first :: more.attributes }, after)) := by
  rw [startTag]
  simp only [Cursor.skipBlanks_of_halts offset halts, tagPiece, Cursor.startsWith]
  split
  · rfl
  · split
    · rfl
    · split
      · rfl
      · split
        · rfl
        · split
          · rfl
          · cases paramsIntro? text <;> rfl

/-- The text `inside` in front of a closing angle bracket is the rest of the start tag `start`,
whatever follows. -/
def EndsTag (tag : String) (begin offset : Nat) (inside : List Char) (start : StartTag) : Prop :=
  ∀ size rest, inside.length < size →
    startTag tag begin size ⟨offset, inside ++ '>' :: rest⟩ =
      .ok (start, ⟨offset + byteSize inside + byteSize ['>'], rest⟩)

theorem EndsTag.blank {blanks : List Char} (blank : ∀ char ∈ blanks, isBlank char = true)
    {back : List Char} (halts : Halts isBlank (inside ++ '>' :: back))
    (more : EndsTag tag begin (offset + byteSize blanks) inside start) :
    EndsTag tag begin offset (blanks ++ inside) start := by
  intro size rest enough
  rw [List.length_append] at enough
  have again := more size rest (by omega)
  obtain ⟨size, rfl⟩ := Nat.exists_eq_add_one_of_ne_zero (show size ≠ 0 by omega)
  rw [List.append_assoc, startTag_blank size blank (halts_stop halts rest), again, byteSize_append,
    Nat.add_assoc offset]

/-- A start tag that ends, with or without a slash. -/
theorem EndsTag.finish (slash : Bool) :
    EndsTag tag begin offset (if slash then ['/'] else []) ⟨[], [], [], slash⟩ := by
  intro size rest enough
  obtain ⟨size, rfl⟩ := Nat.exists_eq_add_one_of_ne_zero (show size ≠ 0 by omega)
  cases slash with
  | true =>
    have halts : Halts isBlank (['/'] ++ '>' :: rest) := halts_cons.mpr (by decide)
    rw [if_pos rfl, startTag_succ size halts]
    show Except.ok (_, (⟨offset, ['/', '>'] ++ rest⟩ : Cursor).skip ['/', '>'].length) = _
    rw [Cursor.skip_append]
    rfl
  | false =>
    have halts : Halts isBlank ([] ++ '>' :: rest) := halts_cons.mpr (by decide)
    rw [if_neg Bool.false_ne_true, startTag_succ size halts]
    show Except.ok (_, (⟨offset, ['>'] ++ rest⟩ : Cursor).skip ['>'].length) = _
    rw [Cursor.skip_append]
    rfl

/-- The place inside a curly tag, behind its braces and its `~` marker. -/
theorem skip_braces {present : Bool} {rest : List Char}
    (other : present = false → rest.head? ≠ some '~') :
    ((⟨offset, '{' :: '{' :: (tilde present ++ rest)⟩ : Cursor).skip 2).eatTilde =
      (present, ⟨offset + byteSize ('{' :: '{' :: tilde present), rest⟩) := by
  have skipped : (⟨offset, '{' :: '{' :: (tilde present ++ rest)⟩ : Cursor).skip 2 =
      ⟨offset + byteSize ['{', '{'], tilde present ++ rest⟩ :=
    Cursor.skip_append offset ['{', '{'] (tilde present ++ rest)
  rw [skipped, Cursor.eatTilde_tilde _ other]
  simp only [byteSize_cons, byteSize_nil]
  rw [show ∀ a b c d : Nat, a + (b + (c + 0)) + d = a + (b + (c + d)) by omega]

/-- A comment in front of the rest of a start tag is dropped. -/
theorem EndsTag.comment {present : Bool} {used : List Char} {remark : CurlyComment}
    (takes : Takes (curlyComment ⟨offset, []⟩) (offset + byteSize ('{' :: '{' :: tilde present))
      ('!' :: used) remark)
    (more : EndsTag tag begin
      (offset + byteSize ('{' :: '{' :: tilde present) + byteSize ('!' :: used)) inside start) :
    EndsTag tag begin offset ('{' :: '{' :: tilde present ++ ('!' :: used ++ inside)) start := by
  intro size rest enough
  simp only [List.length_append, List.length_cons] at enough
  obtain ⟨size, rfl⟩ := Nat.exists_eq_add_one_of_ne_zero (show size ≠ 0 by omega)
  have same : '{' :: '{' :: tilde present ++ ('!' :: used ++ inside) ++ '>' :: rest =
      '{' :: '{' :: (tilde present ++ ('!' :: used ++ (inside ++ '>' :: rest))) := by
    simp
  have kind : tagPiece ('{' :: '{' :: (tilde present ++ ('!' :: used ++ (inside ++ '>' :: rest)))) =
      .comment := by
    cases present <;> rfl
  rw [same, startTag_succ size (halts_cons.mpr (by decide)), kind]
  simp only
  rw [skip_braces (fun _ => by simp)]
  show (curlyComment ⟨offset, []⟩ _ >>= _) = _
  rw [takes]
  show startTag tag begin size _ = _
  rw [more size rest (by omega), byteSize_append _ ('!' :: used ++ inside), byteSize_append ('!' :: used)]
  simp only [← Nat.add_assoc]

/-- A modifier in front of the rest of a start tag. -/
theorem EndsTag.modifier {present : Bool} {used back : List Char} {parts : CallParts}
    (kind : tagPiece ('{' :: '{' :: tilde present ++ (used ++ (['}', '}'] ++ (inside ++ '>' :: back)))) =
      .modifier)
    (other : present = false → used.head? ≠ some '~')
    (isCall : IsCall expression .braces used.length
      (offset + byteSize ('{' :: '{' :: tilde present)) used parts)
    (more : EndsTag tag begin
      (offset + byteSize ('{' :: '{' :: tilde present) + byteSize used + byteSize ['}', '}'])
      inside start) :
    EndsTag tag begin offset
      ('{' :: '{' :: tilde present ++ (used ++ (['}', '}'] ++ inside)))
      { start with modifiers := ⟨parts.call, some ⟨offset, offset +
        byteSize ('{' :: '{' :: tilde present) + byteSize used + byteSize ['}', '}']⟩⟩ ::
          start.modifiers } := by
  intro size rest enough
  simp only [List.length_append, List.length_cons] at enough
  obtain ⟨size, rfl⟩ := Nat.exists_eq_add_one_of_ne_zero (show size ≠ 0 by omega)
  have same (rest : List Char) :
      '{' :: '{' :: tilde present ++ (used ++ (['}', '}'] ++ inside)) ++ '>' :: rest =
        '{' :: '{' :: (tilde present ++ (used ++ (['}', '}'] ++ (inside ++ '>' :: rest)))) := by
    simp
  have kindHere : tagPiece ('{' :: '{' :: (tilde present ++
      (used ++ (['}', '}'] ++ (inside ++ '>' :: rest))))) = .modifier := by
    rw [← same, tagPiece_stop _ rest back, same]
    exact kind
  rw [same, startTag_succ size (halts_cons.mpr (by decide)), kindHere]
  simp only
  have reads : tagCall .braces offset ⟨offset + byteSize ('{' :: '{' :: tilde present),
      used ++ (['}', '}'] ++ (inside ++ '>' :: rest))⟩ =
        .ok (parts, ⟨offset + byteSize ('{' :: '{' :: tilde present) + byteSize used +
          byteSize ['}', '}'], inside ++ '>' :: rest⟩) :=
    isCall.tag offset (inside ++ '>' :: rest)
  rw [skip_braces (by rwa [head?_append_left isCall.nonempty])]
  show (tagCall .braces offset _ >>= _) = _
  rw [reads]
  show (startTag tag begin size _ >>= _) = _
  rw [more size rest (by omega), byteSize_append _ (used ++ (['}', '}'] ++ inside)),
    byteSize_append used, byteSize_append ['}', '}']]
  simp only [← Nat.add_assoc]
  rfl

/-- Block params in front of the rest of a start tag; later ones count. -/
theorem EndsTag.params {letters words : List Char} {names : List String}
    (intro : ∀ rest, paramsIntro? ('a' :: letters ++ rest) = some ('a' :: letters).length)
    (takes : Takes blockParams (offset + byteSize ('a' :: letters)) words names)
    (more : EndsTag tag begin (offset + byteSize ('a' :: letters) + byteSize words) inside start) :
    EndsTag tag begin offset ('a' :: letters ++ (words ++ inside))
      { start with params := if start.params.isEmpty then names else start.params } := by
  intro size rest enough
  simp only [List.length_append, List.length_cons] at enough
  obtain ⟨size, rfl⟩ := Nat.exists_eq_add_one_of_ne_zero (show size ≠ 0 by omega)
  have same : 'a' :: letters ++ (words ++ inside) ++ '>' :: rest =
      'a' :: letters ++ (words ++ (inside ++ '>' :: rest)) := by
    simp
  have kind : tagPiece ('a' :: letters ++ (words ++ (inside ++ '>' :: rest))) =
      .params ('a' :: letters).length := by
    rw [tagPiece, intro]
    rfl
  have halts : Halts isBlank ('a' :: letters ++ (words ++ (inside ++ '>' :: rest))) :=
    halts_cons.mpr (by decide)
  rw [same, startTag_succ size halts, kind]
  simp only
  rw [Cursor.skip_append, takes]
  show (startTag tag begin size _ >>= _) = _
  rw [more size rest (by omega), byteSize_append _ (words ++ inside), byteSize_append words]
  simp only [← Nat.add_assoc]
  rfl

/-- An attribute in front of the rest of a start tag. -/
theorem EndsTag.attr {used back : List Char} {first : Attribute} (nonempty : used ≠ [])
    (halts : Halts isBlank used)
    (kind : tagPiece (used ++ (inside ++ '>' :: back)) = .attr)
    (reads : ∀ rest, Reader.attr tag ⟨offset, used ++ (inside ++ '>' :: rest)⟩ =
      .ok (first, ⟨offset + byteSize used, inside ++ '>' :: rest⟩))
    (more : EndsTag tag begin (offset + byteSize used) inside start) :
    EndsTag tag begin offset (used ++ inside)
      { start with attributes := first :: start.attributes } := by
  intro size rest enough
  have long := List.length_pos_iff.mpr nonempty
  simp only [List.length_append] at enough
  obtain ⟨size, rfl⟩ := Nat.exists_eq_add_one_of_ne_zero (show size ≠ 0 by omega)
  have kindHere : tagPiece (used ++ (inside ++ '>' :: rest)) = .attr := by
    rw [← List.append_assoc] at kind ⊢
    rw [tagPiece_stop _ rest back, kind]
  rw [List.append_assoc, startTag_succ size ((halts_append nonempty).mpr halts), kindHere]
  simp only
  rw [reads rest]
  show (startTag tag begin size _ >>= _) = _
  rw [more size rest (by omega), byteSize_append, ← Nat.add_assoc]
  rfl

/-- What a text begins with if it begins with a piece of the given kind. -/
def TagPiece.Begins (text : List Char) : TagPiece → Prop
  | .nothing => text = []
  | .slash => ∃ rest, text = ['/'] ++ '>' :: rest
  | .bracket => ∃ rest, text = '>' :: rest
  | .comment => ∃ present rest, text = '{' :: '{' :: (tilde present ++ '!' :: rest)
  | .modifier => ∃ rest, text = '{' :: '{' :: rest
  | .params intro => paramsIntro? text = some intro
  | .attr => True

theorem tagPiece_begins (text : List Char) : (tagPiece text).Begins text := by
  unfold tagPiece
  split
  · next empty => exact List.isEmpty_iff.mp empty
  split
  · next starts =>
    obtain ⟨rest, rfl⟩ := List.isPrefixOf_iff_prefix.mp starts
    exact ⟨rest, rfl⟩
  split
  · next starts =>
    obtain ⟨rest, rfl⟩ := List.isPrefixOf_iff_prefix.mp starts
    exact ⟨rest, rfl⟩
  split
  · next starts =>
    rcases Bool.or_eq_true_iff.mp starts with starts | starts
    · obtain ⟨rest, rfl⟩ := List.isPrefixOf_iff_prefix.mp starts
      exact ⟨false, rest, rfl⟩
    · obtain ⟨rest, rfl⟩ := List.isPrefixOf_iff_prefix.mp starts
      exact ⟨true, rest, rfl⟩
  split
  · next starts =>
    obtain ⟨rest, rfl⟩ := List.isPrefixOf_iff_prefix.mp starts
    exact ⟨rest, rfl⟩
  split
  · next intro found => exact found
  · trivial

/-- One step of the reader of a start tag: the piece that stands in front, and the reading of what
stands behind it. -/
inductive TagStep (tag : String) (begin size offset : Nat) :
    List Char → StartTag → Cursor → Prop where
  | finish (slash : Bool) (rest : List Char) :
    TagStep tag begin size offset ((if slash then ['/'] else []) ++ '>' :: rest)
      ⟨[], [], [], slash⟩
      ⟨offset + byteSize (if slash then ['/'] else []) + byteSize ['>'], rest⟩
  | comment {present : Bool} {used rest : List Char} {remark : CurlyComment} {start : StartTag}
    {after : Cursor}
    (takes : Takes (curlyComment ⟨offset, []⟩) (offset + byteSize ('{' :: '{' :: tilde present))
      ('!' :: used) remark)
    (more : startTag tag begin size ⟨offset + byteSize ('{' :: '{' :: tilde present) +
      byteSize ('!' :: used), rest⟩ = .ok (start, after)) :
    TagStep tag begin size offset ('{' :: '{' :: tilde present ++ ('!' :: used ++ rest)) start after
  | modifier {present : Bool} {used rest : List Char} {parts : CallParts} {start : StartTag}
    {after : Cursor}
    (kind : tagPiece ('{' :: '{' :: tilde present ++ (used ++ (['}', '}'] ++ rest))) = .modifier)
    (other : present = false → used.head? ≠ some '~')
    (isCall : IsCall expression .braces used.length
      (offset + byteSize ('{' :: '{' :: tilde present)) used parts)
    (more : startTag tag begin size ⟨offset + byteSize ('{' :: '{' :: tilde present) +
      byteSize used + byteSize ['}', '}'], rest⟩ = .ok (start, after)) :
    TagStep tag begin size offset ('{' :: '{' :: tilde present ++ (used ++ (['}', '}'] ++ rest)))
      { start with modifiers := ⟨parts.call, some ⟨offset, offset +
        byteSize ('{' :: '{' :: tilde present) + byteSize used + byteSize ['}', '}']⟩⟩ ::
          start.modifiers } after
  | params {letters words rest : List Char} {names : List String} {start : StartTag}
    {after : Cursor}
    (intro : ∀ rest, paramsIntro? ('a' :: letters ++ rest) = some ('a' :: letters).length)
    (takes : Takes blockParams (offset + byteSize ('a' :: letters)) words names)
    (more : startTag tag begin size ⟨offset + byteSize ('a' :: letters) + byteSize words, rest⟩ =
      .ok (start, after)) :
    TagStep tag begin size offset ('a' :: letters ++ (words ++ rest))
      { start with params := if start.params.isEmpty then names else start.params } after
  | attr {used rest : List Char} {first : Attribute} {start : StartTag} {after : Cursor}
    (nonempty : used ≠ []) (halts : Halts isBlank used)
    (kind : tagPiece (used ++ rest) = .attr)
    (reads : Reader.attr tag ⟨offset, used ++ rest⟩ = .ok (first, ⟨offset + byteSize used, rest⟩))
    (again : ∀ front back other, rest = front ++ '>' :: back →
      Reader.attr tag ⟨offset, used ++ (front ++ '>' :: other)⟩ =
        .ok (first, ⟨offset + byteSize used, front ++ '>' :: other⟩))
    (more : startTag tag begin size ⟨offset + byteSize used, rest⟩ = .ok (start, after)) :
    TagStep tag begin size offset (used ++ rest)
      { start with attributes := first :: start.attributes } after

theorem startTag_step {size : Nat} {text : List Char} {after : Cursor} (halts : Halts isBlank text)
    (success : startTag tag begin (size + 1) ⟨offset, text⟩ = .ok (start, after)) :
    TagStep tag begin size offset text start after := by
  rw [startTag_succ size halts] at success
  have begins := tagPiece_begins text
  cases kind : tagPiece text <;> rw [kind] at begins success
  case nothing => cases success
  case slash =>
    obtain ⟨rest, rfl⟩ := begins
    cases success
    exact .finish true rest
  case bracket =>
    obtain ⟨rest, rfl⟩ := begins
    cases success
    exact .finish false rest
  case comment =>
    obtain ⟨present, tail, rfl⟩ := begins
    obtain ⟨⟨remark, afterRemark⟩, readRemark, success⟩ := bind_eq_ok success
    rw [skip_braces (fun _ => by simp)] at readRemark
    obtain ⟨used, rest, equal, rfl, -, takes⟩ := curlyComment_takes rfl readRemark
    rw [equal]
    exact .comment takes success
  case modifier =>
    obtain ⟨tail, rfl⟩ := begins
    obtain ⟨present, tail, rfl, other⟩ := Cursor.exists_tilde tail
    obtain ⟨⟨parts, afterParts⟩, readParts, success⟩ := bind_eq_ok success
    obtain ⟨⟨more, last⟩, readMore, success⟩ := bind_eq_ok success
    cases success
    rw [skip_braces other] at readParts
    obtain ⟨used, rest, rfl, rfl, isCall⟩ := tagCall_isCall readParts
    rw [head?_append_left isCall.nonempty] at other
    exact .modifier kind other isCall readMore
  case params intro =>
    obtain ⟨⟨names, afterNames⟩, readNames, success⟩ := bind_eq_ok success
    obtain ⟨⟨more, last⟩, readMore, success⟩ := bind_eq_ok success
    cases success
    obtain ⟨letters, tail, rfl, rfl, intro⟩ := paramsIntro?_eq_some begins
    rw [Cursor.skip_append] at readNames
    obtain ⟨words, tail, rfl, rfl, takes⟩ := blockParams_takesOnly _ _ _ _ readNames
    exact .params intro takes readMore
  case attr =>
    obtain ⟨⟨first, afterFirst⟩, readFirst, success⟩ := bind_eq_ok success
    obtain ⟨⟨more, last⟩, readMore, success⟩ := bind_eq_ok success
    cases success
    obtain ⟨used, tail, someUsed, rfl, rfl, again⟩ := attr_takesInTag tag _ _ _ _ readFirst
    exact .attr someUsed ((halts_append someUsed).mp halts) kind readFirst again readMore

/-- A start tag is read up to its closing angle bracket and no further. -/
theorem startTag_endsTag : ∀ (size offset : Nat) (text : List Char) (start : StartTag)
    (after : Cursor), startTag tag begin size ⟨offset, text⟩ = .ok (start, after) →
    ∃ inside rest, text = inside ++ '>' :: rest ∧
      after = ⟨offset + byteSize inside + byteSize ['>'], rest⟩ ∧
      EndsTag tag begin offset inside start := by
  intro size
  induction size with
  | zero =>
    intro offset text start after success
    cases success
  | succ size inductionHypothesis =>
    intro offset text start after success
    obtain ⟨blanks, text, rfl, blank, halts⟩ := exists_run isBlank text
    rw [startTag_blank size blank halts] at success
    suffices found : ∃ inside rest, text = inside ++ '>' :: rest ∧
        after = ⟨offset + byteSize blanks + byteSize inside + byteSize ['>'], rest⟩ ∧
        EndsTag tag begin (offset + byteSize blanks) inside start by
      obtain ⟨inside, rest, rfl, rfl, ends⟩ := found
      exact ⟨blanks ++ inside, rest, by simp, by simp [Nat.add_assoc], ends.blank blank halts⟩
    generalize offset + byteSize blanks = offset at success ⊢
    cases startTag_step halts success with
    | finish slash rest => exact ⟨_, rest, rfl, rfl, EndsTag.finish slash⟩
    | comment takes more =>
      obtain ⟨inside, rest, rfl, rfl, ends⟩ := inductionHypothesis _ _ _ _ more
      exact ⟨_, rest, by simp, by simp [Nat.add_assoc], ends.comment takes⟩
    | modifier kind other isCall more =>
      obtain ⟨inside, rest, rfl, rfl, ends⟩ := inductionHypothesis _ _ _ _ more
      exact ⟨_, rest, by simp, by simp [Nat.add_assoc], ends.modifier kind other isCall⟩
    | params intro takes more =>
      obtain ⟨inside, rest, rfl, rfl, ends⟩ := inductionHypothesis _ _ _ _ more
      exact ⟨_, rest, by simp, by simp [Nat.add_assoc], ends.params intro takes⟩
    | attr nonempty haltsUsed kind reads again more =>
      obtain ⟨inside, rest, rfl, rfl, ends⟩ := inductionHypothesis _ _ _ _ more
      exact ⟨_, rest, by simp, by simp [Nat.add_assoc],
        ends.attr nonempty haltsUsed kind fun other => again inside rest other rfl⟩

end StartTag

end TagMigration.Reader
