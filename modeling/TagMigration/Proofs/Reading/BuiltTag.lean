/-
Tags that are built are read back. The start tag that stands for an invocation is spelled out:
its name, the named arguments of the invocation as attributes, and its block params. Each of them
is read again as what it was built from, if no key holds a character that ends an attribute name
and no value begins with a character that makes a curly tag something else than an inline tag.
-/
import TagMigration.Invocation.TagName
import TagMigration.Proofs.Reading.Given
import TagMigration.Proofs.Reading.Relocation

namespace TagMigration

/-! ### Tag names -/

/-- A capital or a digit. -/
def isCapital (char : Char) : Bool :=
  char.isUpper || char.isDigit

section Letters

variable {char : Char}

theorem isUpper_iff : char.isUpper = true ↔ 65 ≤ char.toNat ∧ char.toNat ≤ 90 :=
  decide_eq_true_iff.trans (and_congr UInt32.le_iff_toNat_le UInt32.le_iff_toNat_le)

theorem isLower_iff : char.isLower = true ↔ 97 ≤ char.toNat ∧ char.toNat ≤ 122 :=
  Bool.and_eq_true_iff.trans (and_congr (decide_eq_true_iff.trans UInt32.le_iff_toNat_le)
    (decide_eq_true_iff.trans UInt32.le_iff_toNat_le))

theorem isAlphanum_iff : char.isAlphanum = true ↔
    (char.isUpper = true ∨ char.isLower = true) ∨ char.isDigit = true :=
  Bool.or_eq_true_iff.trans (or_congr_left Bool.or_eq_true_iff)

theorem isCapital_iff : isCapital char = true ↔ char.isUpper = true ∨ char.isDigit = true :=
  Bool.or_eq_true_iff

theorem toNat_toUpper (lower : char.isLower = true) : char.toUpper.toNat = char.toNat - 32 := by
  have bounds := isLower_iff.mp lower
  have range : 'a'.val ≤ char.val ∧ char.val ≤ 'z'.val := by
    rwa [UInt32.le_iff_toNat_le, UInt32.le_iff_toNat_le]
  -- The capitals are 32 below the small letters, so the addition wraps around.
  have wraps : char.toUpper.toNat = (char.toNat + 4294967264) % 4294967296 := by
    delta Char.toUpper
    rw [dif_pos range]
    exact UInt32.toNat_add ..
  omega

theorem toUpper_of_not_isLower (notLower : char.isLower = false) : char.toUpper = char := by
  refine dif_neg fun range => Bool.eq_false_iff.mp notLower (isLower_iff.mpr ?_)
  rwa [UInt32.le_iff_toNat_le, UInt32.le_iff_toNat_le] at range

theorem isCapital_toUpper (letter : char.isAlphanum = true) : isCapital char.toUpper = true := by
  rw [isCapital_iff]
  cases lower : char.isLower with
  | true =>
    have bounds := isLower_iff.mp lower
    refine .inl (isUpper_iff.mpr ?_)
    rw [toNat_toUpper lower]
    omega
  | false =>
    rw [toUpper_of_not_isLower lower]
    simpa [isAlphanum_iff, lower] using letter

theorem isAlphanum_of_isCapital (capital : isCapital char = true) : char.isAlphanum = true := by
  rw [isAlphanum_iff]
  rcases isCapital_iff.mp capital with upper | digit
  · exact .inl (.inl upper)
  · exact .inr digit

end Letters

/-- A name that tags have: a capital, then letters, digits and colons. -/
structure IsTagName (tag : String) : Prop where
  first : ∃ first letters, tag.toList = first :: letters ∧ first.isAlpha = true ∧
    isCapital first = true
  letters : ∀ char ∈ tag.toList, char.isAlphanum = true ∨ char = ':'

namespace TagName

/-- A part of a tag name: it begins with a capital or a digit and is made of letters and digits. -/
def IsPart (part : List Char) : Prop :=
  (∃ first letters, part = first :: letters ∧ isCapital first = true) ∧
    ∀ char ∈ part, char.isAlphanum = true

theorem isPart_of_capitalise? {word part : List Char} (found : capitalise? word = some part) :
    IsPart part := by
  cases word with
  | nil => cases found
  | cons first rest =>
    rw [capitalise?] at found
    split at found
    · next letters =>
      cases found
      rw [List.all_eq_true, List.forall_mem_cons] at letters
      have capital := isCapital_toUpper letters.1
      exact ⟨⟨_, rest, rfl, capital⟩,
        List.forall_mem_cons.mpr ⟨isAlphanum_of_isCapital capital, letters.2⟩⟩
    · cases found

theorem pieces_ne_nil (isSeparator : Char → Bool) (text : List Char) :
    pieces isSeparator text ≠ [] := by
  cases text with
  | nil => exact List.cons_ne_nil _ _
  | cons char rest =>
    rw [pieces]
    split
    · exact List.cons_ne_nil _ _
    · split <;> exact List.cons_ne_nil _ _

/-- If each piece yields a part, the parts of the pieces are parts, and there is a first one. -/
theorem isPart_of_mapM {make : List Char → Option (List Char)} {found parts : List (List Char)}
    (makes : ∀ {piece part}, make piece = some part → IsPart part)
    (yields : found.mapM make = some parts) :
    (∀ part ∈ parts, IsPart part) ∧ (found ≠ [] → parts ≠ []) := by
  induction found generalizing parts with
  | nil =>
    cases yields
    exact ⟨List.forall_mem_nil _, id⟩
  | cons piece found inductionHypothesis =>
    simp only [List.mapM_cons, Option.pure_def, Option.bind_eq_bind, Option.bind_eq_some_iff,
      Option.some.injEq] at yields
    obtain ⟨part, made, others, yieldsOthers, rfl⟩ := yields
    exact ⟨List.forall_mem_cons.mpr ⟨makes made, (inductionHypothesis yieldsOthers).1⟩,
      fun _ => List.cons_ne_nil _ _⟩

theorem isPart_of_segment? {text part : List Char} (found : segment? text = some part) :
    IsPart part := by
  obtain ⟨words, yields, joined⟩ := Option.bind_eq_some_iff.mp found
  cases joined
  obtain ⟨isPart, nonempty⟩ := isPart_of_mapM isPart_of_capitalise? yields
  obtain ⟨word, words, rfl⟩ := List.exists_cons_of_ne_nil (nonempty (pieces_ne_nil _ _))
  obtain ⟨⟨⟨first, letters, rfl, capital⟩, -⟩, -⟩ := List.forall_mem_cons.mp isPart
  refine ⟨⟨first, _, rfl, capital⟩, fun char member => ?_⟩
  obtain ⟨word, isWord, inside⟩ := List.mem_flatten.mp member
  exact (isPart word isWord).2 char inside

theorem isTagName_of_ofName? {name tag : String} (found : ofName? name = some tag) :
    IsTagName tag := by
  obtain ⟨segments, yields, found⟩ := Option.bind_eq_some_iff.mp found
  obtain ⟨isPart, nonempty⟩ := isPart_of_mapM isPart_of_segment? yields
  obtain ⟨segment, segments, rfl⟩ := List.exists_cons_of_ne_nil (nonempty (pieces_ne_nil _ _))
  obtain ⟨⟨⟨first, letters, rfl, capital⟩, -⟩, -⟩ := List.forall_mem_cons.mp isPart
  have starts : ∃ rest, [':', ':'].intercalate ((first :: letters) :: segments) = first :: rest := by
    cases segments with
    | nil => exact ⟨letters, List.intercalate_singleton⟩
    | cons second segments => exact ⟨_, List.intercalate_cons_cons⟩
  obtain ⟨rest, starts⟩ := starts
  simp only [starts] at found
  split at found
  · next isLetter =>
    cases found
    rw [← starts]
    refine ⟨⟨first, rest, by rw [starts, String.toList_ofList], isLetter, capital⟩, ?_⟩
    rw [String.toList_ofList]
    refine forall_mem_intercalate (by simp) fun part member char inside => ?_
    exact .inl ((isPart part member).2 char inside)
  · cases found

end TagName

section IsTagName

variable {tag : String}

/-- No tag of words is a void element. -/
theorem IsTagName.notVoid (isTagName : IsTagName tag) : isVoidTag tag = false := by
  obtain ⟨first, letters, starts, -, capital⟩ := isTagName.first
  have small : voidTags.all (fun name => !name.toList.head?.any isCapital) = true := by decide
  refine Bool.eq_false_iff.mpr fun isVoid => ?_
  have lower := List.all_eq_true.mp small tag (List.contains_iff_mem.mp isVoid)
  rw [starts, List.head?_cons, Option.any_some, capital] at lower
  cases lower

theorem notBlank_of_isAlphanum {char : Char} (letter : char.isAlphanum = true) :
    isBlank char = false ∧ char ≠ '/' ∧ char ≠ '>' := by
  have notSlash : char ≠ '/' := by
    rintro rfl
    exact absurd letter (by decide)
  have notBracket : char ≠ '>' := by
    rintro rfl
    exact absurd letter (by decide)
  rw [isAlphanum_iff, isUpper_iff, isLower_iff, Reader.isDigit_iff] at letter
  refine ⟨?_, notSlash, notBracket⟩
  simp only [isBlank, Bool.or_eq_false_iff, Bool.and_eq_false_iff, decide_eq_false_iff_not,
    beq_eq_false_iff_ne]
  omega

/-- A tag name is read up to a blank, a slash or a closing angle bracket. -/
theorem IsTagName.tagName? (isTagName : IsTagName tag) {rest : List Char}
    (halts : Halts (fun char => !isBlank char && char != '/' && char != '>') rest) :
    Reader.tagName? (tag.toList ++ rest) = some tag.toList := by
  obtain ⟨first, letters, starts, letter, -⟩ := isTagName.first
  have inside : ∀ char ∈ letters, (!isBlank char && char != '/' && char != '>') = true := by
    intro char member
    rcases isTagName.letters char (starts ▸ List.mem_cons_of_mem _ member) with letter | rfl
    · obtain ⟨notBlank, notSlash, notBracket⟩ := notBlank_of_isAlphanum letter
      simp [notBlank, notSlash, notBracket]
    · decide
  have isStart : Reader.isTagStart first = true := by
    rw [Reader.isTagStart, letter]
    rfl
  rw [starts, List.cons_append, Reader.tagName?, if_pos isStart, takeWhile_run inside halts]

end IsTagName

/-! ### Named arguments as attributes -/

/-- The argument can be written as an attribute: its key does not end an attribute name, and its
value in braces is an inline tag. -/
def NamedArgument.FitsTag (argument : NamedArgument) : Prop :=
  '/' ∉ argument.key.toList ∧ '>' ∉ argument.key.toList ∧
    ∀ name ∈ argument.value.name?, name.toList.head? ∉ [some '#', some '!', some '/']

instance (argument : NamedArgument) : Decidable argument.FitsTag :=
  inferInstanceAs (Decidable ('/' ∉ argument.key.toList ∧ '>' ∉ argument.key.toList ∧
    ∀ name ∈ argument.value.name?, name.toList.head? ∉ [some '#', some '!', some '/']))

namespace Reader

/-- A word that begins with a mark is a path. -/
theorem name?_runExpression {first : Char} (mark : first ∈ ['#', '!', '/']) (letters rest : List Char)
    (span : Option Span) :
    (runExpression (first :: letters) rest span).name? = some (String.ofList (first :: letters)) := by
  have noNumber : number? (first :: letters ++ rest) = none := by
    simp only [List.mem_cons, List.not_mem_nil, or_false] at mark
    rcases mark with rfl | rfl | rfl <;> rfl
  have other {word : String} (small : word.toList.head? ∉ [some '#', some '!', some '/']) :
      String.ofList (first :: letters) ≠ word := by
    rintro rfl
    rw [String.toList_ofList, List.head?_cons] at small
    exact small (by simpa using mark)
  simp only [runExpression, noNumber, wordExpression]
  rw [if_neg (by simp), if_neg (other (by decide)), if_neg (other (by decide)),
    if_neg (other (by decide)), if_neg (other (by decide))]
  rfl

/-- An expression begins with a parenthesis, a quote or a name character, and if it is no path that
begins with a mark, it begins with no mark. -/
theorem expression_first {cursor after : Cursor} {value : Expression}
    (success : expression cursor = .ok (value, after))
    (plain : ∀ name ∈ value.name?, name.toList.head? ∉ [some '#', some '!', some '/']) :
    ∃ first tail, cursor.rest = first :: tail ∧ isBlank first = false ∧
      first ∉ ['#', '!', '/', '~', '{'] := by
  obtain ⟨offset, text⟩ := cursor
  cases text with
  | nil => cases success
  | cons first tail =>
    refine ⟨first, tail, rfl, ?_⟩
    by_cases nests : first = '('
    · subst nests
      decide
    rw [expression, List.length_cons, expressionWithin_char _ offset nests] at success
    split at success
    · next quoted => rcases quoted with rfl | rfl <;> decide
    · obtain ⟨run, rest, equal, someRun, named, halts, rfl, -⟩ :=
        atom_eq_ok (List.cons_ne_nil _ _) success
      obtain ⟨char, letters, rfl⟩ := List.exists_cons_of_ne_nil someRun
      obtain ⟨rfl, -⟩ := List.cons.inj equal
      have isName := named first List.mem_cons_self
      have unmarked : first ∉ ['#', '!', '/'] := by
        intro mark
        refine plain _ (name?_runExpression mark letters rest _) ?_
        rw [String.toList_ofList, List.head?_cons]
        simpa using mark
      have unshaped : first ≠ '~' ∧ first ≠ '{' := by
        constructor <;> rintro rfl <;> exact absurd isName (by decide)
      refine ⟨isBlank_of_isNameChar isName, ?_⟩
      simp only [List.mem_cons, List.not_mem_nil, or_false, not_or] at unmarked ⊢
      exact ⟨unmarked.1, unmarked.2.1, unmarked.2.2, unshaped.1, unshaped.2⟩

/-- The value of an argument is read again at every place. -/
theorem exists_expression {offset : Nat} {used : List Char} {value : Expression}
    (reads : expression ⟨offset, used⟩ = .ok (value, ⟨offset + byteSize used, []⟩)) (place : Nat) :
    ∃ copy, copy.mapSpans eraseSpan = value.mapSpans eraseSpan ∧
      ∀ other, Halts isNameChar other → expression ⟨place, used ++ other⟩ =
        .ok (copy, ⟨place + byteSize used, other⟩) := by
  obtain ⟨base, last, success, rfl, afterEq⟩ := exists_base expression_shift reads
  obtain ⟨again, rest, textEq, -, rfl, -, rereads⟩ := expression_rereads used.length _ _ _ _ success
  obtain rfl : [] = rest := congrArg Cursor.rest afterEq
  rw [List.append_nil] at textEq
  subst textEq
  refine ⟨base.mapSpans (moveSpan place), ?_, fun other halts => ?_⟩
  · rw [Expression.mapSpans_mapSpans, Expression.mapSpans_mapSpans]
    rfl
  · exact read_moved expression_shift (rereads (Nat.le_refl _) other fun _ => halts) place

/-- The value of an argument that was read prints as a text which, between braces, is an inline tag
that shows the value. -/
theorem IsGiven.exists_shown {source : List Char} {argument : NamedArgument}
    (given : IsGiven source argument) (fits : argument.FitsTag) :
    ∃ inner, argument.value.print source = .ok inner ∧ ∀ offset, ∃ tag : Mustache,
      IsMustache offset (inlineText openBraces false false inner) tag ∧
        tag.mapSpans eraseSpan = (Build.mustache argument.value).mapSpans eraseSpan := by
  obtain ⟨⟨offset, text⟩, after, stands, success⟩ := given.value
  obtain ⟨first, tail, textEq, notBlank, unmarked⟩ := expression_first success fits.2.2
  obtain ⟨used, rest, rfl, someUsed, rfl, span, rereads⟩ :=
    expression_rereads text.length _ _ _ _ success
  have alone := rereads (by simp) [] fun _ => halts_nil
  rw [List.append_nil] at alone
  obtain ⟨char, letters, rfl⟩ := List.exists_cons_of_ne_nil someUsed
  obtain ⟨rfl, -⟩ := List.cons.inj textEq
  refine ⟨char :: letters, ?_, fun place => ?_⟩
  · rw [Expression.print_of_span span]
    exact stands.left.copySpan
  · obtain ⟨copy, alike, reads⟩ :=
      exists_expression alone (place + byteSize openBraces + byteSize (tilde false))
    have isCall : IsCall expression (inlineCloser false) (char :: letters).length
        (place + byteSize openBraces + byteSize (tilde false)) ([] ++ (char :: letters ++ tilde false))
        ⟨⟨copy, [], []⟩, [], false⟩ :=
      Closes.callee (List.forall_mem_nil _) someUsed (halts_cons.mpr notBlank)
        (fun _ rest => reads _ (halts_cons.mpr rfl)) (.finish false nofun)
    rw [List.nil_append, show tilde false = [] from rfl, List.append_nil] at isCall
    simp only [List.mem_cons, List.not_mem_nil, or_false, not_or] at unmarked
    obtain ⟨notHash, notRemark, notSlash, notTilde, notBrace⟩ := unmarked
    have differs {mark : Char} (other : char ≠ mark) :
        (char :: letters).head? ≠ some mark := fun equal => other (Option.some.inj equal)
    have braces : (⟨place, inlineText openBraces false false (char :: letters) ++ []⟩ :
        Cursor).startsWith ['{', '{', '{'] = false := by
      simp [Cursor.startsWith, inlineText, openBraces, tilde, List.isPrefixOf, Ne.symm notBrace]
    refine ⟨_, isCall.isMustache rfl braces (fun _ => differs notTilde)
      ⟨differs notHash, differs notRemark, differs notSlash⟩ rfl, ?_⟩
    simp only [Mustache.mapSpans, Call.mapSpans, Build.mustache, alike]
    rfl

theorem isAttributeChar_of_isNameChar {char : Char} (named : isNameChar char = true)
    (notSlash : char ≠ '/') (notBracket : char ≠ '>') : isAttributeChar char = true := by
  simp only [isNameChar, isAttributeChar, Bool.and_eq_true, Bool.not_eq_true', List.contains_eq_mem,
    decide_eq_false_iff_not, List.mem_cons, List.not_mem_nil, or_false, not_or] at named ⊢
  obtain ⟨notBlank, notEquals, -, -, -, -, notBrace, -, notQuote, notDouble⟩ := named
  exact ⟨notBlank, notEquals, notSlash, notBracket, notQuote, notDouble, notBrace⟩

/-- An attribute whose value is an inline tag. -/
theorem takes_attr_mustache (tag : String) (offset : Nat) {run inner : List Char} {shown : Mustache}
    (someRun : run ≠ []) (isName : ∀ char ∈ run, isAttributeChar char = true)
    (isMustache : IsMustache (offset + byteSize run + byteSize ['='])
      (inlineText openBraces false false inner) shown) :
    Takes (attr tag) offset (run ++ '=' :: inlineText openBraces false false inner)
      ⟨String.ofList run, .mustache shown, some ⟨offset, offset +
        byteSize (run ++ '=' :: inlineText openBraces false false inner)⟩⟩ := by
  intro rest
  have same : run ++ '=' :: inlineText openBraces false false inner ++ rest =
      run ++ ([] ++ '=' :: (inlineText openBraces false false inner ++ rest)) := by
    simp
  have place : offset + byteSize run + byteSize ['='] +
      byteSize (inlineText openBraces false false inner) =
        offset + byteSize (run ++ '=' :: inlineText openBraces false false inner) := by
    simp only [byteSize_append, byteSize_cons, byteSize_nil]
    omega
  have braced : Halts isBlank (inlineText openBraces false false inner ++ rest) :=
    halts_cons.mpr (by decide)
  rw [same, attr_eq tag offset someRun isName (halts_cons.mpr (by decide)) (List.forall_mem_nil _)
    (halts_cons.mpr (by decide)), eat?_single, List.head?_cons, if_pos rfl]
  simp only [List.tail_cons, byteSize_nil, Nat.add_zero]
  rw [Cursor.skipBlanks_of_halts _ braced]
  show (mustache _ >>= _) >>= _ = _
  rw [isMustache.takes rest, place]
  rfl

/-- The text of an argument that is written as an attribute. -/
def attributeText (key inner : List Char) : List Char :=
  '@' :: (key ++ '=' :: inlineText openBraces false false inner)

theorem print_toAttribute_eq {source inner : List Char} {argument : NamedArgument}
    (prints : argument.value.print source = .ok inner) :
    argument.toAttribute.print source = .ok (attributeText argument.key.toList inner) := by
  have key : ("@" ++ argument.key).toList = '@' :: argument.key.toList := by
    rw [String.toList_append]
    rfl
  rw [NamedArgument.print_toAttribute prints, key]
  simp [attributeText, inlineText, tilde, inlineCloser, Closer.chars, closeBraces]

/-- An argument that was read is written as an attribute, which is read back wherever it stands. -/
theorem IsGiven.exists_attribute {source : List Char} {argument : NamedArgument}
    (given : IsGiven source argument) (fits : argument.FitsTag) :
    ∃ letters, argument.toAttribute.print source = .ok ('@' :: letters) ∧
      ∀ tag offset, ∃ copy : Attribute, Takes (attr tag) offset ('@' :: letters) copy ∧
        copy.mapSpans eraseSpan = argument.toAttribute.mapSpans eraseSpan := by
  obtain ⟨inner, prints, shows⟩ := given.exists_shown fits
  refine ⟨_, print_toAttribute_eq prints, fun tag offset => ?_⟩
  have isName : ∀ char ∈ '@' :: argument.key.toList, isAttributeChar char = true := by
    refine List.forall_mem_cons.mpr ⟨by decide, fun char member => ?_⟩
    refine isAttributeChar_of_isNameChar (given.key char member) ?_ ?_
    · rintro rfl
      exact fits.1 member
    · rintro rfl
      exact fits.2.1 member
  obtain ⟨shown, isMustache, alike⟩ :=
    shows (offset + byteSize ('@' :: argument.key.toList) + byteSize ['='])
  refine ⟨_, takes_attr_mustache tag offset (List.cons_ne_nil _ _) isName isMustache, ?_⟩
  have key : String.ofList ('@' :: argument.key.toList) = "@" ++ argument.key := by
    rw [← List.singleton_append, String.ofList_append, String.ofList_toList]
  simp only [Attribute.mapSpans, AttributeValue.mapSpans, key, alike]
  rfl

/-! ### The whole tag -/

/-- A text that can follow the name of a tag: nothing, or something after a space. -/
def Spaced (text : List Char) : Prop :=
  text = [] ∨ ∃ tail, text = ' ' :: tail

theorem Spaced.halts {text rest : List Char} (spaced : Spaced text) {class? : Char → Bool}
    (ends : class? ' ' = false) (halts : Halts class? rest) : Halts class? (text ++ rest) := by
  rcases spaced with rfl | ⟨tail, rfl⟩
  · exact halts
  · exact halts_cons.mpr ends

theorem EndsTag.space {tag : String} {begin offset : Nat} {inside : List Char} {start : StartTag}
    (halts : Halts isBlank (inside ++ ['>']))
    (more : EndsTag tag begin (offset + byteSize [' ']) inside start) :
    EndsTag tag begin offset (' ' :: inside) start :=
  more.blank (List.forall_mem_singleton.mpr rfl) halts

/-- The attributes of a tag that is built, in front of the rest of the tag. -/
theorem exists_attributes {source : List Char} : ∀ {named : List NamedArgument},
    (∀ argument ∈ named, IsGiven source argument ∧ argument.FitsTag) →
    ∃ text, printAttributes source (named.map NamedArgument.toAttribute) = .ok text ∧
      Spaced text ∧ ∀ {tag begin offset inside start},
        EndsTag tag begin (offset + byteSize text) inside start → ∃ attributes,
          attributes.map (Attribute.mapSpans eraseSpan) =
            (named.map NamedArgument.toAttribute).map (Attribute.mapSpans eraseSpan) ∧
          EndsTag tag begin offset (text ++ inside)
            { start with attributes := attributes ++ start.attributes }
  | [], _ => ⟨[], by rw [List.map_nil, printAttributes], .inl rfl, fun ends => ⟨[], rfl, ends⟩⟩
  | argument :: named, all => by
    obtain ⟨⟨given, fits⟩, others⟩ := List.forall_mem_cons.mp all
    obtain ⟨letters, prints, reads⟩ := given.exists_attribute fits
    obtain ⟨text, printsMore, -, ends⟩ := exists_attributes others
    refine ⟨' ' :: ('@' :: letters) ++ text, ?_, .inr ⟨_, rfl⟩,
      fun {tag begin offset inside start} more => ?_⟩
    · rw [List.map_cons, printAttributes, prints, printsMore]
      rfl
    · have place : offset + byteSize (' ' :: ('@' :: letters) ++ text) =
          offset + byteSize [' '] + byteSize ('@' :: letters) + byteSize text := by
        simp only [byteSize_append, byteSize_cons, byteSize_nil]
        omega
      rw [place] at more
      obtain ⟨copy, takes, alike⟩ := reads tag (offset + byteSize [' '])
      obtain ⟨attributes, alikeMore, endsMore⟩ := ends more
      have whole := (endsMore.attr (List.cons_ne_nil _ _) (halts_cons.mpr (by decide))
        (show tagPiece ('@' :: letters ++ (text ++ inside ++ '>' :: [])) = .attr from rfl)
        fun rest => takes _).space (halts_cons.mpr (by decide))
      refine ⟨copy :: attributes, ?_, ?_⟩
      · rw [List.map_cons, List.map_cons, List.map_cons, alike, alikeMore]
      · rw [List.append_assoc]
        exact whole

/-- The block params of a tag that is built, in front of the rest of the tag. -/
theorem EndsTag.bound {tag : String} {begin offset : Nat} {inside : List Char}
    {attributes : List Attribute} {modifiers : List Modifier} {selfClosing : Bool}
    {params : List String} (isParam : ∀ name ∈ params, IsParam name)
    (more : EndsTag tag begin (offset + byteSize (printParams params)) inside
      ⟨attributes, modifiers, [], selfClosing⟩) :
    EndsTag tag begin offset (printParams params ++ inside)
      ⟨attributes, modifiers, params, selfClosing⟩ := by
  cases params with
  | nil => exact more
  | cons name names =>
    have lead : printParams (name :: names) = ' ' :: ('a' :: ['s', ' ', '|'] ++
        ((" ".intercalate (name :: names)).toList ++ ['|'])) := rfl
    have introduced (rest : List Char) :
        paramsIntro? ('a' :: ['s', ' ', '|'] ++ rest) = some ('a' :: ['s', ' ', '|']).length := rfl
    have place : offset + byteSize (printParams (name :: names)) =
        offset + byteSize [' '] + byteSize ('a' :: ['s', ' ', '|']) +
          byteSize ((" ".intercalate (name :: names)).toList ++ ['|']) := by
      rw [lead]
      simp only [byteSize_append, byteSize_cons, byteSize_nil]
      omega
    rw [place] at more
    have whole := (more.params introduced (takes_blockParams (List.cons_ne_nil _ _) isParam _)).space
      (halts_cons.mpr (by decide))
    rw [lead, List.cons_append, List.append_assoc]
    exact whole

theorem spaced_printParams (params : List String) : Spaced (printParams params) := by
  cases params with
  | nil => exact .inl rfl
  | cons name names => exact .inr ⟨_, rfl⟩

/-- The end of a tag that is built. -/
theorem endsTag_built (tag : String) (begin offset : Nat) (selfClosing : Bool) :
    EndsTag tag begin offset (if selfClosing then [' ', '/'] else []) ⟨[], [], [], selfClosing⟩ := by
  cases selfClosing with
  | true => exact (EndsTag.finish true).space (halts_cons.mpr (by decide))
  | false => exact EndsTag.finish false

/-- Over the source a start tag without spans prints as the text, which is read back as the tag
wherever it stands. -/
structure TagReadsBack (source text : List Char) (tag : String) (start : StartTag) : Prop where
  prints : ElementTags.printStart source ⟨tag, start.attributes, start.modifiers, start.params,
    start.selfClosing, none, none, none⟩ = .ok text
  bracket : text.head? = some '<'
  reads : ∀ offset, ∃ copy : StartTag, Takes elementStart offset text (tag, copy) ∧
    copy.mapSpans eraseSpan = start.mapSpans eraseSpan

/-- A start tag that is built from arguments which were read is read back. -/
theorem exists_tagReadsBack {source : List Char} {tag : String} {named : List NamedArgument}
    {params : List String} (isTagName : IsTagName tag)
    (all : ∀ argument ∈ named, IsGiven source argument ∧ argument.FitsTag)
    (isParam : ∀ name ∈ params, IsParam name) (selfClosing : Bool) :
    ∃ text, TagReadsBack source text tag
      ⟨named.map NamedArgument.toAttribute, [], params, selfClosing⟩ := by
  obtain ⟨attributes, prints, spaced, ends⟩ := exists_attributes all
  refine ⟨_, ElementTags.printStart_built prints .., rfl, fun offset => ?_⟩
  have endsParams := (endsTag_built (String.ofList tag.toList) offset (offset + byteSize ['<'] +
    byteSize tag.toList + byteSize attributes + byteSize (printParams params))
    selfClosing).bound isParam
  obtain ⟨copies, alike, endsTag⟩ := ends endsParams
  have named : tagName? (tag.toList ++ (attributes ++ (printParams params ++
      if selfClosing then [' ', '/'] else []) ++ '>' :: [])) = some tag.toList := by
    refine isTagName.tagName? ?_
    rw [List.append_assoc, List.append_assoc]
    refine spaced.halts rfl ((spaced_printParams params).halts rfl ?_)
    cases selfClosing <;> exact halts_cons.mpr (by decide)
  have same : '<' :: (tag.toList ++ (attributes ++ (printParams params ++
      if selfClosing then [' ', '/'] else []) ++ ['>'])) = '<' :: tag.toList ++ attributes ++ [] ++
        printParams params ++ if selfClosing then " />".toList else ['>'] := by
    cases selfClosing <;> simp
  have takes := endsTag.takes_elementStart named
  rw [String.ofList_toList, same] at takes
  refine ⟨_, takes, ?_⟩
  simp only [StartTag.mapSpans, List.append_nil, alike]

/-- The end tag of a tag that is built. -/
theorem takes_endTag {tag : String} (isTagName : IsTagName tag) (offset : Nat) :
    Takes (elementEnd tag) offset ("</".toList ++ tag.toList ++ ['>']) () := by
  have named : tagName? (tag.toList ++ ([] ++ '>' :: [])) = some tag.toList :=
    isTagName.tagName? (halts_cons.mpr rfl)
  have takes := takes_elementEnd offset named (List.forall_mem_nil _)
  rw [String.ofList_toList] at takes
  rw [List.append_assoc]
  exact takes

end Reader

end TagMigration
