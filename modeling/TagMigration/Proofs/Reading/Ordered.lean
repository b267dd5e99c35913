/-
The pieces of a start tag in order. The reader goes through a start tag once, from left to right, and
gives every attribute and every modifier the span from where it began to where it is now. So they
are in order, and inside the tag. A value in quotes is cut into texts and curly tags in the same
way, with nothing in between.
-/
import TagMigration.Proofs.Tree.Tiles

namespace TagMigration.Reader

/-! ### Quoted values -/

theorem textPart_tiles (offset : Nat) (run : List Char) :
    Tiles offset (offset + byteSize run)
      ((textPart run ⟨offset, offset + byteSize run⟩).map ValuePart.span) := by
  cases run with
  | nil => rfl
  | cons char run => exact tiles_single (List.cons_ne_nil char run)

/-- The parts of a quoted value tile what stands in front of its quote. -/
theorem valueParts_tiles (quote : Char) (begin : Nat) : ∀ (size offset : Nat) (text : List Char)
    (parts : List ValuePart) (after : Cursor),
    valueParts quote begin size ⟨offset, text⟩ = .ok (parts, after) →
    ∃ inside rest, text = inside ++ ([quote] ++ rest) ∧
      after = ⟨offset + byteSize inside + byteSize [quote], rest⟩ ∧
      Tiles offset (offset + byteSize inside) (parts.map ValuePart.span) := by
  intro size
  induction size with
  | zero =>
    intro offset text parts after success
    cases success
  | succ size inductionHypothesis =>
    intro offset text parts after success
    obtain ⟨front, rest, rfl, -, ⟨tail, rfl, rfl, rfl⟩ |
      ⟨-, tag, afterTag, more, readTag, readMore, rfl⟩⟩ := valueParts_cases success
    · exact ⟨front, tail, rfl, rfl, textPart_tiles offset front⟩
    · obtain ⟨curly, rest, rfl, rfl, isMustache⟩ := mustache_isMustache readTag
      obtain ⟨inside, rest, rfl, rfl, tilesMore⟩ := inductionHypothesis _ _ _ _ readMore
      have someCurly : curly ≠ [] :=
        List.ne_nil_of_length_pos (Nat.lt_of_lt_of_le (by decide) isMustache.long)
      have tilesTag : Tiles (offset + byteSize front)
          (offset + byteSize front + byteSize curly + byteSize inside)
          (tag.span :: more.map ValuePart.span) := by
        rw [isMustache.span]
        exact .cons someCurly tilesMore
      refine ⟨front ++ (curly ++ inside), rest, by simp, by simp [Nat.add_assoc], ?_⟩
      rw [List.map_append, byteSize_append, byteSize_append, ← Nat.add_assoc, ← Nat.add_assoc]
      exact (textPart_tiles offset front).append tilesTag

section Values

variable {source : List Char} {offset : Nat} {text : List Char} {after : Cursor}

/-- The parts of a value in quotes tile the text between them. -/
theorem quotedValue_tiled {quote : Char} (isQuote : quote = '"' ∨ quote = '\'')
    {value : AttributeValue} (stands : Stands source offset (quote :: text))
    (success : quotedValue quote ⟨offset, quote :: text⟩ = .ok (value, after)) :
    value.Tiled source := by
  rw [quotedValue_eq] at success
  obtain ⟨⟨parts, last⟩, readParts, success⟩ := bind_eq_ok success
  cases success
  obtain ⟨inside, rest, rfl, rfl, tiles⟩ := valueParts_tiles _ _ _ _ _ _ _ readParts
  have upTo : offset + byteSize [quote] + byteSize inside = offset + byteSize (quote :: inside) := by
    rw [Nat.add_assoc, ← byteSize_append]
    rfl
  have upToQuote : offset + byteSize (quote :: inside) + byteSize [quote] =
      offset + byteSize (quote :: inside ++ [quote]) := by
    rw [byteSize_append, Nat.add_assoc]
  rw [← List.append_assoc, ← List.cons_append] at stands
  rw [upTo] at tiles
  rw [quotedParts, upTo, upToQuote]
  cases plainText? parts with
  | some chars => trivial
  | none => exact ⟨offset, quote, inside, isQuote, stands.left, rfl, tiles⟩

theorem attributeValue_tiled {name : String} {value : AttributeValue}
    (stands : Stands source offset text)
    (success : attributeValue name ⟨offset, text⟩ = .ok (value, after)) : value.Tiled source := by
  unfold attributeValue at success
  split at success
  · next equal =>
    obtain rfl : text = _ := equal
    exact quotedValue_tiled (.inl rfl) stands success
  · next equal =>
    obtain rfl : text = _ := equal
    exact quotedValue_tiled (.inr rfl) stands success
  · obtain ⟨⟨tag, last⟩, -, success⟩ := bind_eq_ok success
    cases success
    trivial
  · simp only at success
    split at success
    · cases success
    · cases success
      trivial

end Values

/-! ### Pieces of a start tag -/

/-- A text stands in the source from every place in it on. -/
theorem stands_skip {source : List Char} {cursor : Cursor}
    (stands : Stands source cursor.offset cursor.rest) (count : Nat) :
    Stands source (cursor.skip count).offset (cursor.skip count).rest := by
  rw [← List.take_append_drop count cursor.rest] at stands
  exact stands.right

theorem attr_tiled {source : List Char} {tag : String} {cursor after : Cursor} {found : Attribute}
    (stands : Stands source cursor.offset cursor.rest)
    (success : attr tag cursor = .ok (found, after)) :
    found.span = some (cursor.spanTo after) ∧ found.value.Tiled source := by
  obtain ⟨-, span, ⟨noValue, -⟩ | readValue⟩ := attr_eq_ok success
  · rw [noValue]
    exact ⟨span, trivial⟩
  · refine ⟨span, attributeValue_tiled ?_ readValue⟩
    exact stands_skip (stands_skip (stands_skip (stands_skip stands _) _) _) _

/-- The pieces of a start tag are in order between two offsets. -/
structure StartTag.Ordered (source : List Char) (low high : Nat) (start : StartTag) : Prop where
  attributes : Ascends low high (start.attributes.map Attribute.span)
  modifiers : Ascends low high (start.modifiers.map Modifier.span)
  values : ∀ attr ∈ start.attributes, attr.value.Tiled source

section Ordered

variable {source : List Char} {low below high : Nat} {start : StartTag}

theorem StartTag.Ordered.lower (lower : below ≤ low) (ordered : start.Ordered source low high) :
    start.Ordered source below high :=
  ⟨ordered.attributes.lower lower, ordered.modifiers.lower lower, ordered.values⟩

theorem ordered_finish (order : low ≤ high) (slash : Bool) :
    (⟨[], [], [], slash⟩ : StartTag).Ordered source low high :=
  ⟨order, order, by simp⟩

theorem StartTag.Ordered.modifier (ordered : start.Ordered source low high) (order : below < low)
    (call : Call) :
    ({ start with modifiers := ⟨call, some ⟨below, low⟩⟩ :: start.modifiers } :
      StartTag).Ordered source below high where
  attributes := ordered.attributes.lower (Nat.le_of_lt order)
  modifiers := ⟨Nat.le_refl _, order, ordered.modifiers⟩
  values := ordered.values

theorem StartTag.Ordered.attr (ordered : start.Ordered source low high) (order : below < low)
    {first : Attribute} (span : first.span = some ⟨below, low⟩)
    (tiled : first.value.Tiled source) :
    ({ start with attributes := first :: start.attributes } : StartTag).Ordered source below
      high where
  attributes := by
    rw [List.map_cons, span]
    exact ⟨Nat.le_refl _, order, ordered.attributes⟩
  modifiers := ordered.modifiers.lower (Nat.le_of_lt order)
  values := by
    intro attr member
    rcases List.mem_cons.mp member with rfl | further
    · exact tiled
    · exact ordered.values attr further

end Ordered

/-- The pieces of a start tag that is read are in order between where reading began and where it
ended. The induction follows the reader from piece to piece. -/
theorem startTag_ordered {source : List Char} {tag : String} {begin : Nat} :
    ∀ (size offset : Nat) (text : List Char) (start : StartTag) (after : Cursor),
    startTag tag begin size ⟨offset, text⟩ = .ok (start, after) → Stands source offset text →
    start.Ordered source offset after.offset := by
  intro size
  induction size with
  | zero =>
    intro offset text start after success
    cases success
  | succ size inductionHypothesis =>
    intro offset text start after success stands
    obtain ⟨blanks, text, rfl, blank, halts⟩ := exists_run isBlank text
    rw [startTag_blank size blank halts] at success
    refine StartTag.Ordered.lower (Nat.le_add_right offset (byteSize blanks)) ?_
    replace stands := stands.right
    generalize offset + byteSize blanks = offset at success stands ⊢
    cases startTag_step halts success with
    | finish slash rest =>
      exact ordered_finish (Nat.le_trans (Nat.le_add_right _ _) (Nat.le_add_right _ _)) slash
    | comment takes more =>
      have ordered := inductionHypothesis _ _ _ _ more stands.right.right
      exact ordered.lower (Nat.le_trans (Nat.le_add_right _ _) (Nat.le_add_right _ _))
    | @modifier present used rest parts start after kind other isCall more =>
      have ordered := inductionHypothesis _ _ _ _ more stands.right.right.right
      have positive := byteSize_pos (List.cons_ne_nil '{' ('{' :: tilde present))
      exact ordered.modifier (by omega) parts.call
    | @params letters words rest names start after intro takes more =>
      have ordered := inductionHypothesis _ _ _ _ more stands.right.right
      have order : offset ≤ offset + byteSize ('a' :: letters) + byteSize words := by omega
      exact ⟨ordered.attributes.lower order, ordered.modifiers.lower order, ordered.values⟩
    | attr nonempty haltsUsed kind reads again more =>
      obtain ⟨span, tiled⟩ := attr_tiled stands reads
      have ordered := inductionHypothesis _ _ _ _ more stands.right
      exact ordered.attr (Nat.lt_add_of_pos_right (byteSize_pos nonempty)) span tiled

theorem elementStart_ordered {source : List Char} {tag : String} {start : StartTag}
    {cursor after : Cursor} (stands : Stands source cursor.offset cursor.rest)
    (success : elementStart cursor = .ok ((tag, start), after)) :
    start.Ordered source cursor.offset after.offset := by
  unfold elementStart at success
  split at success
  · split at success
    · cases success
    · next run found =>
      obtain ⟨⟨pieces, last⟩, readPieces, success⟩ := bind_eq_ok success
      cases success
      have ordered := startTag_ordered _ _ _ _ _ readPieces (stands_skip (stands_skip stands 1) _)
      exact ordered.lower (Nat.le_trans (Nat.le_add_right _ _) (Nat.le_add_right _ _))
  · cases success

end TagMigration.Reader
