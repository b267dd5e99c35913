/-
Names that have tags. A name is translated if it begins with a letter and is made of words: segments
between slashes, and in every segment words that a single dash or underscore keeps apart. This is
told here by a grammar of its own, whose values are spelled out as names and as tags; cutting a
name finds the words again. The tag of such a name is one that markup can hold: written as a
tag that closes itself it is read as that tag, and it is a component and no void element.
-/
import TagMigration.Proofs.Reading.BuiltTag

namespace TagMigration

namespace TagName

/-! ### Names made of words -/

/-- A word of letters and digits. -/
structure Word where
  chars : List Char
  nonempty : chars ≠ []
  isAlphanum : ∀ char ∈ chars, char.isAlphanum = true

/-- The word with its first character in upper case. -/
def Word.capitalised (word : Word) : List Char :=
  match word.chars with
  | [] => []
  | first :: rest => first.toUpper :: rest

/-- What keeps two words of a segment apart. -/
inductive Joint where
  | dash
  | underscore
deriving DecidableEq, Repr

/-- The character of a joint. -/
def Joint.char : Joint → Char
  | .dash => '-'
  | .underscore => '_'

/-- A segment of a name: a word, and further words, each behind a joint. -/
structure Segment where
  first : Word
  others : List (Joint × Word)

namespace Segment

/-- The words of a segment. -/
def words (segment : Segment) : List Word :=
  segment.first :: segment.others.map Prod.snd

/-- The segment as it is spelled in a name. -/
def spelling (segment : Segment) : List Char :=
  segment.first.chars ++ segment.others.flatMap fun (joint, word) => joint.char :: word.chars

/-- The segment as it is spelled in a tag. -/
def capitalised (segment : Segment) : List Char :=
  segment.words.flatMap Word.capitalised

end Segment

/-- The name of given segments. -/
def spelling (segments : List Segment) : List Char :=
  ['/'].intercalate (segments.map Segment.spelling)

/-- The tag of given segments. -/
def capitalised (segments : List Segment) : List Char :=
  [':', ':'].intercalate (segments.map Segment.capitalised)

/-! ### Cutting a text into pieces -/

section Pieces

variable {isSeparator : Char → Bool}

/-- A piece, and further pieces, each behind a separator. -/
def joined (first : List Char) (others : List (Char × List Char)) : List Char :=
  first ++ others.flatMap fun (separator, piece) => separator :: piece

/-- Pieces without separators that are kept apart by separators are found again. -/
theorem pieces_joined {first : List Char} {others : List (Char × List Char)}
    (inFirst : ∀ char ∈ first, isSeparator char = false)
    (inOthers : ∀ other ∈ others, isSeparator other.1 = true ∧
      ∀ char ∈ other.2, isSeparator char = false) :
    pieces isSeparator (joined first others) = first :: others.map Prod.snd := by
  induction others generalizing first with
  | nil =>
    rw [joined, List.flatMap_nil, List.append_nil, List.map_nil]
    induction first with
    | nil => rfl
    | cons char rest inductionHypothesis =>
      obtain ⟨notHere, notInRest⟩ := List.forall_mem_cons.mp inFirst
      rw [pieces, if_neg (Bool.eq_false_iff.mp notHere), inductionHypothesis notInRest]
  | cons other others more =>
    obtain ⟨⟨separates, inPiece⟩, inRest⟩ := List.forall_mem_cons.mp inOthers
    have rest : pieces isSeparator (joined other.2 others) = other.2 :: others.map Prod.snd :=
      more inPiece inRest
    have whole : joined first (other :: others) = first ++ other.1 :: joined other.2 others := rfl
    rw [whole]
    induction first with
    | nil => rw [List.nil_append, pieces, if_pos separates, rest, List.map_cons]
    | cons char chars inductionHypothesis =>
      obtain ⟨notHere, notInRest⟩ := List.forall_mem_cons.mp inFirst
      rw [List.cons_append, pieces, if_neg (Bool.eq_false_iff.mp notHere),
        inductionHypothesis notInRest rfl]

/-- Every text is made of pieces without separators. -/
theorem exists_joined (isSeparator : Char → Bool) (text : List Char) : ∃ first others,
    joined first others = text ∧ (∀ char ∈ first, isSeparator char = false) ∧
      ∀ other ∈ others, isSeparator other.1 = true ∧
        ∀ char ∈ other.2, isSeparator char = false := by
  induction text with
  | nil => exact ⟨[], [], rfl, List.forall_mem_nil _, List.forall_mem_nil _⟩
  | cons char rest inductionHypothesis =>
    obtain ⟨first, others, rfl, inFirst, inOthers⟩ := inductionHypothesis
    cases separates : isSeparator char with
    | true =>
      exact ⟨[], (char, first) :: others, rfl, List.forall_mem_nil _,
        List.forall_mem_cons.mpr ⟨⟨separates, inFirst⟩, inOthers⟩⟩
    | false =>
      exact ⟨char :: first, others, rfl, List.forall_mem_cons.mpr ⟨separates, inFirst⟩, inOthers⟩

/-- If what is made of a piece tells which value spells the piece, then what is made of all pieces
tells which values spell them. -/
theorem mapM_eq_some_iff {Value : Type} {make : List Char → Option (List Char)}
    {spell made : Value → List Char}
    (makes : ∀ {piece part}, make piece = some part ↔
      ∃ value, spell value = piece ∧ made value = part)
    {found parts : List (List Char)} : found.mapM make = some parts ↔
      ∃ values : List Value, values.map spell = found ∧ values.map made = parts := by
  induction found generalizing parts with
  | nil =>
    simp only [List.mapM_nil, List.map_eq_nil_iff, exists_eq_left, List.map_nil]
    exact Option.some_inj
  | cons piece found inductionHypothesis =>
    simp only [List.mapM_cons, Option.pure_def, Option.bind_eq_bind, Option.bind_eq_some_iff,
      Option.some.injEq, makes, inductionHypothesis, List.map_eq_cons_iff]
    constructor
    · rintro ⟨_, ⟨value, rfl, rfl⟩, _, ⟨values, rfl, rfl⟩, rfl⟩
      exact ⟨value :: values, ⟨value, values, rfl, rfl, rfl⟩, rfl⟩
    · rintro ⟨_, ⟨value, values, rfl, rfl, rfl⟩, rfl⟩
      exact ⟨_, ⟨value, rfl, rfl⟩, _, ⟨values, rfl, rfl⟩, rfl⟩

end Pieces

/-! ### Words, segments and names -/

theorem capitalise?_eq_some_iff {text part : List Char} : capitalise? text = some part ↔
    ∃ word : Word, word.chars = text ∧ word.capitalised = part := by
  cases text with
  | nil =>
    refine iff_of_false nofun ?_
    rintro ⟨word, isEmpty, -⟩
    exact word.nonempty isEmpty
  | cons first rest =>
    rw [capitalise?, Option.ite_none_right_eq_some, List.all_eq_true]
    constructor
    · rintro ⟨letters, made⟩
      exact ⟨⟨first :: rest, List.cons_ne_nil _ _, letters⟩, rfl, Option.some.inj made⟩
    · rintro ⟨⟨chars, nonempty, letters⟩, rfl, rfl⟩
      exact ⟨letters, rfl⟩

/-- Whether a character keeps words apart. -/
def isJoint (char : Char) : Bool :=
  char == '-' || char == '_'

theorem isJoint_char (joint : Joint) : isJoint joint.char = true := by
  cases joint <;> rfl

theorem exists_joint {char : Char} (separates : isJoint char = true) :
    ∃ joint : Joint, joint.char = char := by
  rcases Bool.or_eq_true_iff.mp separates with isDash | isUnderscore
  · exact ⟨.dash, (eq_of_beq isDash).symm⟩
  · exact ⟨.underscore, (eq_of_beq isUnderscore).symm⟩

/-- No word has a character that is none of a word. -/
theorem Word.ne {word : Word} {char other : Char} (member : char ∈ word.chars)
    (noLetter : other.isAlphanum = false) : char ≠ other := by
  rintro rfl
  rw [word.isAlphanum char member] at noLetter
  cases noLetter

theorem Word.isJoint_eq_false {word : Word} {char : Char} (member : char ∈ word.chars) :
    isJoint char = false := by
  have notDash : char ≠ '-' := word.ne member (by decide)
  have notUnderscore : char ≠ '_' := word.ne member (by decide)
  simp [isJoint, notDash, notUnderscore]

theorem Segment.spelling_eq (segment : Segment) : segment.spelling =
    joined segment.first.chars
      (segment.others.map fun (joint, word) => (joint.char, word.chars)) := by
  rw [spelling, joined, List.flatMap_map]

/-- A segment is cut into its words. -/
theorem Segment.pieces_spelling (segment : Segment) :
    pieces isJoint segment.spelling = segment.words.map Word.chars := by
  rw [spelling_eq, pieces_joined (fun _ => Word.isJoint_eq_false), words, List.map_cons,
    List.map_map, List.map_map]
  · rfl
  · rw [List.forall_mem_map]
    exact fun (joint, word) _ => ⟨isJoint_char joint, fun _ => Word.isJoint_eq_false⟩

/-- Words behind separators are words behind joints. -/
theorem exists_others {others : List (Char × List Char)} {words : List Word}
    (separates : ∀ other ∈ others, isJoint other.1 = true)
    (spelled : words.map Word.chars = others.map Prod.snd) :
    ∃ behind : List (Joint × Word), behind.map Prod.snd = words ∧
      (behind.map fun (joint, word) => (joint.char, word.chars)) = others := by
  induction others generalizing words with
  | nil =>
    obtain rfl := List.map_eq_nil_iff.mp spelled
    exact ⟨[], rfl, rfl⟩
  | cons other others inductionHypothesis =>
    obtain ⟨word, words, rfl, isPiece, more⟩ := List.map_eq_cons_iff.mp spelled
    obtain ⟨here, further⟩ := List.forall_mem_cons.mp separates
    obtain ⟨joint, isChar⟩ := exists_joint here
    obtain ⟨behind, rfl, rfl⟩ := inductionHypothesis further more
    exact ⟨(joint, word) :: behind, rfl, congrArg (· :: _) (Prod.ext isChar isPiece)⟩

theorem segment?_eq_some_iff {text part : List Char} : segment? text = some part ↔
    ∃ segment : Segment, segment.spelling = text ∧ segment.capitalised = part := by
  have cut : segment? text = some part ↔ ∃ words : List Word,
      words.map Word.chars = pieces isJoint text ∧ words.flatMap Word.capitalised = part := by
    have opened : segment? text =
        ((pieces isJoint text).mapM capitalise?).bind fun words => some words.flatten := rfl
    simp only [opened, Option.bind_eq_some_iff, Option.some.injEq,
      mapM_eq_some_iff capitalise?_eq_some_iff]
    constructor
    · rintro ⟨_, ⟨words, spelled, rfl⟩, rfl⟩
      exact ⟨words, spelled, List.flatMap_def⟩
    · rintro ⟨words, spelled, rfl⟩
      exact ⟨_, ⟨words, spelled, rfl⟩, List.flatMap_def.symm⟩
  rw [cut]
  constructor
  · rintro ⟨words, spelled, rfl⟩
    obtain ⟨chars, others, rfl, inFirst, inOthers⟩ := exists_joined isJoint text
    rw [pieces_joined inFirst inOthers] at spelled
    obtain ⟨first, words, rfl, rfl, more⟩ := List.map_eq_cons_iff.mp spelled
    obtain ⟨behind, rfl, rfl⟩ :=
      exists_others (fun other member => (inOthers other member).1) more
    exact ⟨⟨first, behind⟩, Segment.spelling_eq _, rfl⟩
  · rintro ⟨segment, rfl, rfl⟩
    exact ⟨segment.words, segment.pieces_spelling.symm, rfl⟩

/-- No segment has a slash in it. -/
theorem Segment.noSlash {segment : Segment} :
    ∀ char ∈ segment.spelling, (char == '/') = false := by
  rw [spelling, List.forall_mem_append, List.forall_mem_flatMap]
  refine ⟨fun char member => ?_, fun (joint, word) _ =>
    List.forall_mem_cons.mpr ⟨?_, fun char member => ?_⟩⟩
  · exact beq_false_of_ne (segment.first.ne member (by decide))
  · cases joint <;> rfl
  · exact beq_false_of_ne (word.ne member (by decide))

/-- Pieces behind slashes are pieces between slashes. -/
theorem joined_slash (first : List Char) (others : List (List Char)) :
    joined first (others.map ('/', ·)) = ['/'].intercalate (first :: others) := by
  induction others generalizing first with
  | nil => rw [List.map_nil, joined, List.flatMap_nil, List.append_nil, List.intercalate_singleton]
  | cons other others inductionHypothesis =>
    rw [List.intercalate_cons_cons, ← inductionHypothesis, List.append_assoc]
    rfl

theorem exists_slashed {others : List (Char × List Char)}
    (separates : ∀ other ∈ others, (other.1 == '/') = true) :
    others = (others.map Prod.snd).map ('/', ·) := by
  rw [List.map_map]
  refine (List.map_id others).symm.trans (List.map_congr_left fun other member => ?_)
  exact Prod.ext (eq_of_beq (separates other member)) rfl

/-- A name is cut into segments, of which there is at least one. -/
theorem map_spelling_eq_pieces_iff {segments : List Segment} {text : List Char} :
    segments.map Segment.spelling = pieces (· == '/') text ↔
      segments ≠ [] ∧ spelling segments = text := by
  constructor
  · intro spelled
    obtain ⟨chars, others, rfl, inFirst, inOthers⟩ := exists_joined (· == '/') text
    rw [pieces_joined inFirst inOthers] at spelled
    refine ⟨?_, ?_⟩
    · rintro rfl
      cases spelled
    · rw [spelling, spelled, ← joined_slash,
        ← exists_slashed fun other member => (inOthers other member).1]
  · rintro ⟨nonempty, rfl⟩
    obtain ⟨first, others, rfl⟩ := List.exists_cons_of_ne_nil nonempty
    rw [spelling, List.map_cons, ← joined_slash, pieces_joined fun _ => Segment.noSlash _]
    · rw [List.map_map, List.map_map]
      rfl
    · rw [List.map_map, List.forall_mem_map]
      exact fun segment _ => ⟨rfl, Segment.noSlash⟩

theorem isAlpha_iff {char : Char} :
    char.isAlpha = true ↔ char.isUpper = true ∨ char.isLower = true :=
  Bool.or_eq_true_iff

theorem isAlpha_toUpper (char : Char) : char.toUpper.isAlpha = char.isAlpha := by
  cases lower : char.isLower with
  | true =>
    have bounds := isLower_iff.mp lower
    have upper : char.toUpper.isUpper = true := by
      rw [isUpper_iff, toNat_toUpper lower]
      omega
    rw [isAlpha_iff.mpr (.inl upper), isAlpha_iff.mpr (.inr lower)]
  | false => rw [toUpper_of_not_isLower lower]

/-- A name begins with the first character of its first word, and its tag with the upper case of
that character. -/
theorem exists_first {segments : List Segment} (nonempty : segments ≠ []) :
    ∃ first rest more, spelling segments = first :: rest ∧
      capitalised segments = first.toUpper :: more := by
  obtain ⟨segment, segments, rfl⟩ := List.exists_cons_of_ne_nil nonempty
  obtain ⟨first, letters, isWord⟩ := List.exists_cons_of_ne_nil segment.first.nonempty
  have spelled : segment.spelling = first :: (letters ++
      segment.others.flatMap fun (joint, word) => joint.char :: word.chars) := by
    rw [Segment.spelling, isWord, List.cons_append]
  have raised : segment.capitalised = first.toUpper :: (letters ++
      (segment.others.map Prod.snd).flatMap Word.capitalised) := by
    rw [Segment.capitalised, Segment.words, List.flatMap_cons, Word.capitalised, isWord,
      List.cons_append]
  have starts (separator : List Char) (char : Char) (chars : List Char) (parts : List (List Char)) :
      ∃ rest, separator.intercalate ((char :: chars) :: parts) = char :: rest := by
    cases parts with
    | nil => exact ⟨chars, List.intercalate_singleton⟩
    | cons part parts => exact ⟨_, List.intercalate_cons_cons⟩
  obtain ⟨rest, isName⟩ := starts ['/'] first _ (segments.map Segment.spelling)
  obtain ⟨more, isTag⟩ := starts [':', ':'] first.toUpper _ (segments.map Segment.capitalised)
  refine ⟨first, rest, more, ?_, ?_⟩
  · rw [spelling, List.map_cons, spelled, isName]
  · rw [capitalised, List.map_cons, raised, isTag]

theorem ofName?_eq_some_iff {name tag : String} : ofName? name = some tag ↔
    ∃ segments : List Segment, segments ≠ [] ∧ spelling segments = name.toList ∧
      capitalised segments = tag.toList ∧ (tag.toList.head?.any Char.isAlpha) = true := by
  have opened : ofName? name = ((pieces (· == '/') name.toList).mapM segment?).bind fun parts =>
      if ([':', ':'].intercalate parts).head?.any Char.isAlpha
        then some (String.ofList ([':', ':'].intercalate parts)) else none := by
    rw [ofName?]
    refine congrArg (Option.bind _) (funext fun parts => ?_)
    generalize [':', ':'].intercalate parts = text
    cases text <;> rfl
  have checked (text : List Char) : (if text.head?.any Char.isAlpha
        then some (String.ofList text) else none) = some tag ↔
        text = tag.toList ∧ (tag.toList.head?.any Char.isAlpha) = true := by
    simp only [Option.ite_none_right_eq_some, Option.some.injEq, ← String.toList_inj,
      String.toList_ofList]
    constructor
    · rintro ⟨letter, same⟩
      exact ⟨same, by rwa [← same]⟩
    · rintro ⟨same, letter⟩
      rw [← same] at letter
      exact ⟨letter, same⟩
  rw [opened]
  simp only [Option.bind_eq_some_iff, checked, mapM_eq_some_iff segment?_eq_some_iff,
    map_spelling_eq_pieces_iff]
  constructor
  · rintro ⟨_, ⟨segments, ⟨nonempty, spelled⟩, rfl⟩, same, letter⟩
    exact ⟨segments, nonempty, spelled, same, letter⟩
  · rintro ⟨segments, nonempty, spelled, same, letter⟩
    exact ⟨_, ⟨segments, ⟨nonempty, spelled⟩, rfl⟩, same, letter⟩

end TagName

/-! ### Tags that are read -/

/-- A tag name behind an angle bracket, closed at once, is read as an element without anything in
it. -/
theorem IsTagName.read_closed {tag : String} (isTagName : IsTagName tag) (identity : String) :
    let source := "<" ++ tag ++ " />"
    let whole : Span := ⟨0, byteSize source.toList⟩
    Template.read source identity = .ok ⟨identity, source,
      [.element ⟨tag, [], [], [], true, some whole, some whole, none⟩ []]⟩ := by
  intro source whole
  have named : Reader.tagName? (tag.toList ++ ([' ', '/'] ++ '>' :: [])) = some tag.toList :=
    isTagName.tagName? (halts_cons.mpr (by decide))
  have takes := (Reader.endsTag_built (String.ofList tag.toList) 0 _ true).takes_elementStart named
  have text : '<' :: (tag.toList ++ ([' ', '/'] ++ ['>'])) = source.toList := by
    rw [String.toList_append, String.toList_append, List.append_assoc]
    rfl
  rw [String.ofList_toList, text] at takes
  have spelling := Reader.Spelling.single (Reader.takes_alone takes rfl) (.nil none _)
  rw [List.append_nil, Nat.zero_add] at spelling
  exact Template.read_eq_ok.mpr ⟨_, rfl, spelling⟩

theorem IsTagName.isComponentTag {tag : String} (isTagName : IsTagName tag)
    {isUppercase : Char → Bool} (capitals : ∀ char, char.isUpper = true → isUppercase char = true) :
    isComponentTag isUppercase tag = true := by
  obtain ⟨first, letters, starts, letter, capital⟩ := isTagName.first
  have upper : first.isUpper = true := by
    refine (isCapital_iff.mp capital).resolve_right fun digit => ?_
    rw [Reader.isDigit_iff] at digit
    rw [TagName.isAlpha_iff, isUpper_iff, isLower_iff] at letter
    omega
  rw [TagMigration.isComponentTag, starts, List.head?_cons, Option.any_some, capitals first upper]
  rfl

/-- A name has a tag exactly if it begins with a letter and is spelled by segments of words; the tag
is then spelled by the same segments. Written as a tag that closes itself, it is read as an element
with that tag and nothing else. It is a component, whatever else than the capitals may be in
upper case, and no void element. -/
theorem ofName?_spelling (name tag identity : String) :
    (TagName.ofName? name = some tag ↔ ∃ segments : List TagName.Segment,
      name.toList = TagName.spelling segments ∧ tag.toList = TagName.capitalised segments ∧
        ∃ first rest, name.toList = first :: rest ∧ first.isAlpha = true) ∧
    (TagName.ofName? name = some tag →
      let source := "<" ++ tag ++ " />"
      let whole : Span := ⟨0, byteSize source.toList⟩
      Template.read source identity = .ok ⟨identity, source,
          [.element ⟨tag, [], [], [], true, some whole, some whole, none⟩ []]⟩ ∧
        (∀ isUppercase : Char → Bool, (∀ char, char.isUpper = true → isUppercase char = true) →
          isComponentTag isUppercase tag = true) ∧
        isVoidTag tag = false) := by
  refine ⟨TagName.ofName?_eq_some_iff.trans ⟨?_, ?_⟩, fun found => ?_⟩
  · rintro ⟨segments, nonempty, spelled, raised, letter⟩
    obtain ⟨first, rest, more, isName, isTag⟩ := TagName.exists_first nonempty
    refine ⟨segments, spelled.symm, raised.symm, first, rest, spelled ▸ isName, ?_⟩
    rwa [← raised, isTag, List.head?_cons, Option.any_some, TagName.isAlpha_toUpper] at letter
  · rintro ⟨segments, spelled, raised, first, rest, isName, letter⟩
    have nonempty : segments ≠ [] := by
      rintro rfl
      rw [spelled] at isName
      cases isName
    obtain ⟨start, more, others, starts, isTag⟩ := TagName.exists_first nonempty
    obtain ⟨rfl, -⟩ := List.cons.inj (starts.symm.trans (spelled.symm.trans isName))
    refine ⟨segments, nonempty, spelled.symm, raised.symm, ?_⟩
    rwa [raised, isTag, List.head?_cons, Option.any_some, TagName.isAlpha_toUpper]
  · have isTagName := TagName.isTagName_of_ofName? found
    exact ⟨isTagName.read_closed identity, fun _ => isTagName.isComponentTag, isTagName.notVoid⟩

/-- A name with both joints and two segments. -/
theorem ofName?_spelling_twoSegments :
    TagName.ofName? "ui/x-1_b" = some "Ui::X1B" ∧
      Template.read "<Ui::X1B />" "a.hbs" = .ok ⟨"a.hbs", "<Ui::X1B />",
        [.element ⟨"Ui::X1B", [], [], [], true, some ⟨0, 11⟩, some ⟨0, 11⟩, none⟩ []]⟩ ∧
      isComponentTag Char.isUpper "Ui::X1B" = true ∧ isVoidTag "Ui::X1B" = false := by
  have found : TagName.ofName? "ui/x-1_b" = some "Ui::X1B" := by decide +kernel
  obtain ⟨read, isComponent, notVoid⟩ := (ofName?_spelling "ui/x-1_b" "Ui::X1B" "a.hbs").2 found
  exact ⟨found, read, isComponent Char.isUpper fun _ => id, notVoid⟩

end TagMigration
