/-
Lines and columns identify offsets. Walking over a text, a newline leads to the next line and any
other character to the next column. Every step leads to a later location, so of two character
boundaries the one further on has the later location. The same location is found without a walk, by
counting: the newlines among the bytes before the offset, and the characters of the slice from
behind the last of them. The counts are cut to 32 bits, which loses nothing in a source whose size
is below the highest number of 32 bits.
-/
import Mathlib.Data.List.DropRight
import Mathlib.Data.Prod.Lex
import TagMigration.Proofs.ByteOrder
import TagMigration.Proofs.Tree.Cuts
import TagMigration.Source.Location

namespace TagMigration

/-! ### The order of locations -/

namespace Location

/-- A location as a pair that is compared by the line first. -/
def key (place : Location) : ℕ ×ₗ ℕ :=
  toLex (place.line, place.column)

theorem key_injective : Function.Injective key := by
  rintro ⟨line, column⟩ ⟨otherLine, otherColumn⟩ same
  cases same
  rfl

/-- Locations are ordered by their lines, and on one line by their columns. -/
instance : LinearOrder Location :=
  LinearOrder.lift' key key_injective

theorem lt_iff {first second : Location} : first < second ↔
    first.line < second.line ∨ first.line = second.line ∧ first.column < second.column :=
  Prod.Lex.toLex_lt_toLex

/-! ### Walking over a text -/

/-- The location of the beginning of a source. -/
def start : Location :=
  ⟨1, 1⟩

/-- The location behind a character. -/
def next (place : Location) (char : Char) : Location :=
  if char = '\n' then ⟨place.line + 1, 1⟩ else ⟨place.line, place.column + 1⟩

/-- The location behind a text. -/
def behind (place : Location) (text : List Char) : Location :=
  text.foldl next place

/-- What a text has behind its last newline. -/
def lastLine (text : List Char) : List Char :=
  text.rtakeWhile (· ≠ '\n')

theorem lastLine_concat (text : List Char) (char : Char) :
    lastLine (text ++ [char]) = if char = '\n' then [] else lastLine text ++ [char] := by
  rw [lastLine, List.rtakeWhile_concat]
  split_ifs <;> simp_all [lastLine]

/-- The location behind a text tells how many newlines the text has, and how many characters are
behind the last of them. -/
theorem start_behind (text : List Char) :
    start.behind text = ⟨text.count '\n' + 1, (lastLine text).length + 1⟩ := by
  induction text using List.reverseRecOn with
  | nil => rfl
  | append_singleton text char inductionHypothesis =>
    rw [behind, List.foldl_concat, ← behind, inductionHypothesis, next, lastLine_concat,
      List.count_append, List.count_singleton]
    by_cases newline : char = '\n' <;> simp [newline]

/-- Every step leads to a later location. -/
theorem lt_next (place : Location) (char : Char) : place < place.next char := by
  rw [lt_iff, next]
  split
  · exact .inl (Nat.lt_succ_self _)
  · exact .inr ⟨rfl, Nat.lt_succ_self _⟩

theorem le_behind (place : Location) (text : List Char) : place ≤ place.behind text := by
  induction text generalizing place with
  | nil => exact le_refl _
  | cons char rest inductionHypothesis =>
    exact (lt_next place char).le.trans (inductionHypothesis (place.next char))

theorem lt_behind (place : Location) {text : List Char} (nonempty : text ≠ []) :
    place < place.behind text := by
  cases text with
  | nil => exact absurd rfl nonempty
  | cons char rest => exact (lt_next place char).trans_le (le_behind (place.next char) rest)

/-! ### The location of an offset -/

/-- Finding the location of an offset behind a text comes to where the text ends. -/
theorem ofOffset_append (front back : List Char) (remaining : Nat) :
    ofOffset (front ++ back) (byteSize front + remaining) =
      advance (start.behind front).line (start.behind front).column (byteSize (lastLine front))
        remaining back := by
  -- The number of bytes in the line is told by the end of `front`, so its last character is taken
  -- off: it becomes the first character of `back`.
  induction front using List.reverseRecOn generalizing back remaining with
  | nil => rw [List.nil_append, byteSize_nil, Nat.zero_add]; rfl
  | append_singleton front char inductionHypothesis =>
    have positive := Char.utf8Size_pos char
    rw [List.append_assoc, byteSize_append, byteSize_cons, byteSize_nil, Nat.add_zero,
      Nat.add_assoc, inductionHypothesis, List.singleton_append, advance, if_neg (by omega),
      if_neg (by omega), Nat.add_sub_cancel_left, behind, behind, List.foldl_concat, next,
      lastLine_concat]
    split <;> simp

/-- At a character boundary stands the location behind what is before it. -/
theorem ofOffset_byteSize (front back : List Char) :
    ofOffset (front ++ back) (byteSize front) = start.behind front := by
  have found := ofOffset_append front back 0
  rw [Nat.add_zero] at found
  rw [found]
  cases back <;> rfl

/-- Inside a character the bytes of the line are counted. -/
theorem ofOffset_inside (front back : List Char) {char : Char} {inner : Nat} (positive : 0 < inner)
    (inside : inner < char.utf8Size) :
    ofOffset (front ++ char :: back) (byteSize front + inner) =
      ⟨front.count '\n' + 1, byteSize (lastLine front) + inner + 1⟩ := by
  rw [ofOffset_append, advance, if_neg (by omega), if_pos inside, start_behind]

/-- Such an offset can have the location of a boundary behind it. -/
example : ofOffset ['€', 'b'] 1 = ofOffset ['€', 'b'] 3 := rfl

theorem ofOffset_size (source : List Char) :
    ofOffset source (byteSize source) = start.behind source := by
  have found := ofOffset_byteSize source []
  rwa [List.append_nil] at found

/-- Behind the end stands the location of the end. -/
theorem ofOffset_of_le {source : List Char} {offset : Nat} (atEnd : byteSize source ≤ offset) :
    ofOffset source offset = ofOffset source (byteSize source) := by
  have found := ofOffset_append source [] (offset - byteSize source)
  rw [List.append_nil, Nat.add_sub_cancel' atEnd] at found
  rw [found, ofOffset_size]
  rfl

/-- Of two character boundaries the one further on has the later location. -/
theorem strictMonoOn_ofOffset (source : List Char) :
    StrictMonoOn (ofOffset source) {offset | IsBoundary source offset} := by
  rintro first ⟨front, back, rfl, rfl⟩ second ⟨longer, rest, same, rfl⟩ less
  obtain ⟨middle, rfl, -⟩ := exists_append_of_byteSize_le same (Nat.le_of_lt less)
  have nonempty : middle ≠ [] := by
    rintro rfl
    rw [List.append_nil] at less
    exact Nat.lt_irrefl _ less
  rw [ofOffset_byteSize, same, ofOffset_byteSize, behind, behind, List.foldl_append]
  exact lt_behind _ nonempty

end Location

/-! ### Where an offset is -/

/-- An offset is a character boundary, inside a character, or behind the end. -/
theorem offset_cases (source : List Char) (offset : Nat) :
    IsBoundary source offset ∨
    (∃ front char back inner, source = front ++ char :: back ∧ offset = byteSize front + inner ∧
      0 < inner ∧ inner < char.utf8Size) ∨
    byteSize source < offset := by
  induction source generalizing offset with
  | nil =>
    rcases Nat.eq_zero_or_pos offset with rfl | positive
    · exact .inl ⟨[], [], rfl, rfl⟩
    · exact .inr (.inr positive)
  | cons char rest inductionHypothesis =>
    rcases Nat.eq_zero_or_pos offset with rfl | positive
    · exact .inl ⟨[], char :: rest, rfl, rfl⟩
    · by_cases inside : offset < char.utf8Size
      · exact .inr (.inl ⟨[], char, rest, offset, rfl, (Nat.zero_add _).symm, positive, inside⟩)
      · obtain ⟨further, rfl⟩ := Nat.exists_eq_add_of_le (Nat.le_of_not_lt inside)
        rcases inductionHypothesis further with
          ⟨front, back, rfl, rfl⟩ | ⟨front, other, back, inner, rfl, rfl, inner_pos, short⟩ | long
        · exact .inl ⟨char :: front, back, rfl, rfl⟩
        · exact .inr (.inl ⟨char :: front, other, back, inner, rfl, (Nat.add_assoc _ _ _).symm,
            inner_pos, short⟩)
        · exact .inr (.inr (Nat.add_lt_add_left long _))

/-- A slice stands at its span, and its size is that of the span. -/
theorem stands_of_slice? {source text : List Char} {span : Span}
    (sliced : slice? source span = some text) :
    Stands source span.start text ∧ span.start + byteSize text = span.stop := by
  rw [slice?] at sliced
  split at sliced
  · next inOrder =>
    obtain ⟨⟨front, fromStart⟩, splitFirst, splitSecond⟩ := Option.bind_eq_some_iff.mp sliced
    obtain ⟨⟨middle, back⟩, splitInner, rfl⟩ := Option.map_eq_some_iff.mp splitSecond
    obtain ⟨isSource, frontSize⟩ := splitBytes_eq_some splitFirst
    obtain ⟨rfl, middleSize⟩ := splitBytes_eq_some splitInner
    exact ⟨⟨front, back, isSource, frontSize⟩, by rw [middleSize, Nat.add_sub_cancel' inOrder]⟩
  · cases sliced

/-- No character boundary is inside a character. -/
theorem not_isBoundary_inside (front back : List Char) {char : Char} {inner : Nat}
    (positive : 0 < inner) (inside : inner < char.utf8Size) :
    ¬ IsBoundary (front ++ char :: back) (byteSize front + inner) := by
  rintro ⟨longer, rest, same, size⟩
  obtain ⟨middle, rfl, isMiddle⟩ := exists_append_of_byteSize_le same (by omega)
  rw [byteSize_append] at size
  cases middle with
  | nil =>
    rw [byteSize_nil] at size
    omega
  | cons first more =>
    cases isMiddle
    rw [byteSize_cons] at size
    omega

/-! ### Newlines among the bytes -/

namespace Utf8

/-- The byte of a newline. -/
def newline : UInt8 :=
  10

/-- The bytes of characters. -/
def encoding (text : List Char) : List UInt8 :=
  text.flatMap String.utf8EncodeChar

theorem encoding_append (first second : List Char) :
    encoding (first ++ second) = encoding first ++ encoding second :=
  List.flatMap_append

theorem encoding_singleton (char : Char) : encoding [char] = String.utf8EncodeChar char :=
  List.flatMap_singleton _ _

theorem length_encoding (text : List Char) : (encoding text).length = byteSize text := by
  induction text with
  | nil => rfl
  | cons char rest inductionHypothesis =>
    rw [← List.singleton_append, encoding_append, List.length_append, inductionHypothesis,
      encoding_singleton, String.length_utf8EncodeChar, byteSize_append, byteSize_cons, byteSize_nil,
      Nat.add_zero]

theorem newline_notMem_continuation (code count : Nat) : newline ∉ continuation code count := by
  induction count with
  | zero => exact List.not_mem_nil
  | succ count inductionHypothesis =>
    rw [continuation, List.mem_cons, not_or]
    refine ⟨fun same => ?_, inductionHypothesis⟩
    have value := congrArg UInt8.toNat same
    rw [UInt8.toNat_ofNat_of_lt' (show _ < 256 by omega), newline] at value
    exact absurd value (by rw [show (10 : UInt8).toNat = 10 from rfl]; omega)

/-- No other character than a newline has the byte of a newline. -/
theorem newline_notMem {char : Char} (other : char ≠ '\n') :
    newline ∉ String.utf8EncodeChar char := by
  rw [utf8EncodeChar_eq, List.mem_cons, not_or]
  refine ⟨fun same => other ?_, newline_notMem_continuation _ _⟩
  have value := congrArg UInt8.toNat same
  rw [UInt8.toNat_ofNat_of_lt' (leading_lt (code_lt char)), newline,
    show (10 : UInt8).toNat = 10 from rfl, leading] at value
  have code : char.val.toNat = 10 := by split_ifs at value <;> omega
  exact Char.ext (UInt32.toNat_inj.mp code)

theorem count_newline (text : List Char) : (encoding text).count newline = text.count '\n' := by
  induction text with
  | nil => rfl
  | cons char rest inductionHypothesis =>
    rw [← List.singleton_append, encoding_append, List.count_append, List.count_append,
      inductionHypothesis, encoding_singleton]
    by_cases isNewline : char = '\n'
    · subst isNewline
      rfl
    · rw [List.count_eq_zero.mpr (newline_notMem isNewline),
        List.count_singleton, if_neg (by simpa using isNewline)]

/-- Bytes that are no newlines do not matter for what ends with the last newline. -/
theorem rdropWhile_append {front back : List UInt8} (absent : newline ∉ back) :
    (front ++ back).rdropWhile (· ≠ newline) = front.rdropWhile (· ≠ newline) := by
  rw [List.rdropWhile, List.rdropWhile, List.reverse_append, List.dropWhile_append_of_pos]
  intro byte member
  exact decide_eq_true fun same => absent (same ▸ List.mem_reverse.mp member)

/-- The last newline among the bytes is that of the last newline among the characters. -/
theorem rdropWhile_encoding (text : List Char) :
    (encoding text).rdropWhile (· ≠ newline) = encoding (text.rdropWhile (· ≠ '\n')) := by
  induction text using List.reverseRecOn with
  | nil => rfl
  | append_singleton text char inductionHypothesis =>
    rw [encoding_append, encoding_singleton]
    by_cases isNewline : char = '\n'
    · subst isNewline
      rw [List.rdropWhile_concat_neg _ _ _ (by decide), encoding_append]
      exact List.rdropWhile_concat_neg _ _ _ (by decide)
    · rw [List.rdropWhile_concat_pos _ _ _ (by simpa using isNewline),
        rdropWhile_append (newline_notMem isNewline), inductionHypothesis]

end Utf8

/-! ### Counting -/

namespace Location

/-- A line and a column in numbers of 32 bits. -/
structure Words where
  line : UInt32
  column : UInt32
deriving DecidableEq, Repr

/-- The location that a line and a column tell. -/
def Words.toLocation (words : Words) : Location :=
  ⟨words.line.toNat, words.column.toNat⟩

/-- The bytes before an offset, all of them if it is behind the end. -/
def bytesBefore (source : List Char) (offset : Nat) : List UInt8 :=
  (Utf8.encoding source).take offset

/-- The offset where the line begins that the bytes end in. -/
def lineStart (before : List UInt8) : Nat :=
  (before.rdropWhile (· ≠ Utf8.newline)).length

/-- The number of characters in the line that the bytes end in, or of its bytes if they do not end
between characters. -/
def countInLine (source : List Char) (before : List UInt8) : Nat :=
  match slice? source ⟨lineStart before, before.length⟩ with
  | some text => text.length
  | none => before.length - lineStart before

/-- The line and column of an offset, counted and cut to 32 bits. -/
def counted (source : List Char) (offset : Nat) : Words :=
  let before := bytesBefore source offset
  ⟨.ofNat (before.count Utf8.newline) + 1, .ofNat (countInLine source before) + 1⟩

theorem bytesBefore_byteSize (front back : List Char) :
    bytesBefore (front ++ back) (byteSize front) = Utf8.encoding front := by
  rw [bytesBefore, Utf8.encoding_append, ← Utf8.length_encoding, List.take_left]

theorem bytesBefore_inside (front back : List Char) {char : Char} {inner : Nat}
    (inside : inner < char.utf8Size) :
    bytesBefore (front ++ char :: back) (byteSize front + inner) =
      Utf8.encoding front ++ (String.utf8EncodeChar char).take inner := by
  rw [bytesBefore, Utf8.encoding_append, ← Utf8.length_encoding, List.take_length_add_append,
    ← List.singleton_append, Utf8.encoding_append, Utf8.encoding_singleton,
    List.take_append_of_le_length]
  rw [String.length_utf8EncodeChar]
  exact Nat.le_of_lt inside

theorem bytesBefore_of_le {source : List Char} {offset : Nat} (atEnd : byteSize source ≤ offset) :
    bytesBefore source offset = bytesBefore source (byteSize source) := by
  rw [← Utf8.length_encoding] at atEnd
  rw [bytesBefore, bytesBefore, ← Utf8.length_encoding, List.take_of_length_le atEnd,
    List.take_length]

theorem lineStart_encoding (text : List Char) :
    lineStart (Utf8.encoding text) + byteSize (lastLine text) = byteSize text := by
  rw [lineStart, Utf8.rdropWhile_encoding, Utf8.length_encoding, lastLine, ← byteSize_append,
    List.rdropWhile_append_rtakeWhile]

/-- At a character boundary the characters behind the last newline are counted. -/
theorem countInLine_byteSize (front back : List Char) :
    countInLine (front ++ back) (Utf8.encoding front) = (lastLine front).length := by
  have sliced := slice?_append (front.rdropWhile (· ≠ '\n')) (lastLine front) back
  rw [lastLine, List.rdropWhile_append_rtakeWhile, ← byteSize_append,
    List.rdropWhile_append_rtakeWhile] at sliced
  rw [countInLine, lineStart, Utf8.rdropWhile_encoding, Utf8.length_encoding,
    Utf8.length_encoding, sliced]
  rfl

/-- No slice ends inside a character. -/
theorem slice?_inside (front back : List Char) {char : Char} {begin inner : Nat}
    (positive : 0 < inner) (inside : inner < char.utf8Size) :
    slice? (front ++ char :: back) ⟨begin, byteSize front + inner⟩ = none := by
  rw [Option.eq_none_iff_forall_ne_some]
  intro text sliced
  obtain ⟨stands, size⟩ := stands_of_slice? sliced
  have stops : IsBoundary (front ++ char :: back) (begin + byteSize text) :=
    stands.cuts.stopsBetween
  rw [show begin + byteSize text = byteSize front + inner from size] at stops
  exact not_isBoundary_inside front back positive inside stops

/-- Inside a character the bytes behind the last newline are counted. -/
theorem countInLine_inside (front back : List Char) {char : Char} {inner : Nat}
    (positive : 0 < inner) (inside : inner < char.utf8Size) {part : List UInt8}
    (size : part.length = inner) (absent : Utf8.newline ∉ part) :
    countInLine (front ++ char :: back) (Utf8.encoding front ++ part) =
      byteSize (lastLine front) + inner := by
  have split := lineStart_encoding front
  have sameStart : lineStart (Utf8.encoding front ++ part) = lineStart (Utf8.encoding front) := by
    rw [lineStart, lineStart, Utf8.rdropWhile_append absent]
  rw [countInLine, sameStart, List.length_append, Utf8.length_encoding, size,
    slice?_inside front back positive inside]
  exact show _ - _ = _ by omega

/-- What is counted is one less than the line and the column, at every offset. -/
theorem ofOffset_eq (source : List Char) (offset : Nat) :
    ofOffset source offset = ⟨(bytesBefore source offset).count Utf8.newline + 1,
      countInLine source (bytesBefore source offset) + 1⟩ := by
  have atBoundary (front back : List Char) : ofOffset (front ++ back) (byteSize front) =
      ⟨(bytesBefore (front ++ back) (byteSize front)).count Utf8.newline + 1,
        countInLine (front ++ back) (bytesBefore (front ++ back) (byteSize front)) + 1⟩ := by
    rw [bytesBefore_byteSize, Utf8.count_newline, countInLine_byteSize, ofOffset_byteSize,
      start_behind]
  rcases offset_cases source offset with
    ⟨front, back, rfl, rfl⟩ | ⟨front, char, back, inner, rfl, rfl, positive, inside⟩ | long
  · exact atBoundary front back
  · have other : char ≠ '\n' := by
      rintro rfl
      exact absurd inside (Nat.not_lt.mpr positive)
    have absent : Utf8.newline ∉ (String.utf8EncodeChar char).take inner := fun member =>
      Utf8.newline_notMem other (List.mem_of_mem_take member)
    have size : ((String.utf8EncodeChar char).take inner).length = inner := by
      rw [List.length_take, String.length_utf8EncodeChar]
      exact Nat.min_eq_left (Nat.le_of_lt inside)
    rw [bytesBefore_inside front back inside, List.count_append, Utf8.count_newline,
      List.count_eq_zero.mpr absent, countInLine_inside front back positive inside size absent,
      ofOffset_inside front back positive inside]
  · have ends := atBoundary source []
    rw [List.append_nil] at ends
    rw [ofOffset_of_le (Nat.le_of_lt long), bytesBefore_of_le (Nat.le_of_lt long), ends]

/-- Not more is counted than there are bytes. -/
theorem countInLine_le (source : List Char) (before : List UInt8) :
    countInLine source before ≤ before.length := by
  rw [countInLine]
  split
  · next text sliced =>
    obtain ⟨-, size⟩ := stands_of_slice? sliced
    have length := length_le_byteSize text
    have stop : lineStart before + byteSize text = before.length := size
    omega
  · exact Nat.sub_le _ _

theorem length_bytesBefore_le (source : List Char) (offset : Nat) :
    (bytesBefore source offset).length ≤ byteSize source := by
  rw [← Utf8.length_encoding]
  exact List.length_take_le' _ _

/-- Cutting a number to 32 bits and adding one loses nothing if the number is below the highest. -/
theorem toNat_ofNat_add_one {number : Nat} (low : number < 2 ^ 32 - 1) :
    (UInt32.ofNat number + 1).toNat = number + 1 := by
  rw [UInt32.toNat_add, UInt32.toNat_ofNat_of_lt' (Nat.lt_of_lt_of_le low (Nat.sub_le _ _))]
  exact Nat.mod_eq_of_lt (Nat.add_lt_of_lt_sub low)

/-- In a source whose size is below the highest number of 32 bits, counting finds the location. -/
theorem toLocation_counted {source : List Char} (short : byteSize source < 2 ^ 32 - 1)
    (offset : Nat) : (counted source offset).toLocation = ofOffset source offset := by
  have size := length_bytesBefore_le source offset
  have newlines := @List.count_le_length _ _ Utf8.newline (bytesBefore source offset)
  have inLine := countInLine_le source (bytesBefore source offset)
  rw [ofOffset_eq, counted, Words.toLocation, toNat_ofNat_add_one (by omega),
    toNat_ofNat_add_one (by omega)]

/-! ### Lines and columns identify offsets -/

/-- A line and a column identify the character boundary whose location they are. On the character
boundaries of a source, a larger offset has a later location. The line is one more than there are
newlines before the offset, the column one more than there are characters behind the last of
them. Behind the end stands the location of the end. All of it is so for the numbers of 32 bits that
are counted, since they are the same. -/
theorem ofOffset_identifies {source : List Char} (short : byteSize source < 2 ^ 32 - 1) :
    StrictMonoOn (ofOffset source) {offset | IsBoundary source offset} ∧
    Set.InjOn (ofOffset source) {offset | IsBoundary source offset} ∧
    (∀ front back, source = front ++ back → ofOffset source (byteSize front) =
      ⟨1 + front.count '\n', 1 + (lastLine front).length⟩) ∧
    (∀ offset, (ofOffset source offset).line =
      1 + (bytesBefore source offset).count Utf8.newline) ∧
    (∀ offset, byteSize source < offset →
      ofOffset source offset = ofOffset source (byteSize source)) ∧
    ∀ offset, (counted source offset).toLocation = ofOffset source offset := by
  refine ⟨strictMonoOn_ofOffset source, (strictMonoOn_ofOffset source).injOn, ?_, fun offset => ?_,
    fun offset long => ofOffset_of_le (Nat.le_of_lt long), toLocation_counted short⟩
  · rintro front back rfl
    rw [ofOffset_byteSize, start_behind, Nat.add_comm 1, Nat.add_comm 1]
  · rw [ofOffset_eq, Nat.add_comm 1]

/-- Two lines with characters of one, two and three bytes. -/
def mixedLines : List Char :=
  ['a', 'é', '\n', '€', 'b']

theorem ofOffset_identifies_mixedLines : byteSize mixedLines < 2 ^ 32 - 1 ∧
    IsBoundary mixedLines 3 ∧ IsBoundary mixedLines 7 ∧
    ofOffset mixedLines 3 < ofOffset mixedLines 7 ∧ ofOffset mixedLines 7 = ⟨2, 2⟩ ∧
    ofOffset mixedLines 9 = ofOffset mixedLines 8 ∧
    (counted mixedLines 5).toLocation = ofOffset mixedLines 5 := by
  have short : byteSize mixedLines < 2 ^ 32 - 1 := by decide
  have lineEnd : IsBoundary mixedLines 3 := ⟨['a', 'é'], ['\n', '€', 'b'], rfl, rfl⟩
  have lastChar : IsBoundary mixedLines 7 := ⟨['a', 'é', '\n', '€'], ['b'], rfl, rfl⟩
  obtain ⟨increasing, -, places, -, behindEnd, sameCounted⟩ := ofOffset_identifies short
  exact ⟨short, lineEnd, lastChar, increasing lineEnd lastChar (by decide),
    places ['a', 'é', '\n', '€'] ['b'] rfl, behindEnd 9 (by decide), sameCounted 5⟩

end Location

end TagMigration
