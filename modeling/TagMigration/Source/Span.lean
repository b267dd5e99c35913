/-
Spans of a source text. A span is a range of byte offsets into the UTF-8 form of
the text. Cutting a text at a span succeeds exactly when the range is in order,
inside the text, and starts and ends between two characters.
-/

namespace TagMigration

/-- A range of byte offsets into a source text, without its end. -/
structure Span where
  start : Nat
  stop : Nat
deriving DecidableEq, Repr

/-! ### Byte sizes -/

/-- The number of bytes that a text takes in UTF-8. -/
def byteSize : List Char → Nat
  | [] => 0
  | char :: rest => char.utf8Size + byteSize rest

@[simp]
theorem byteSize_nil : byteSize [] = 0 := rfl

@[simp]
theorem byteSize_cons (char : Char) (rest : List Char) :
    byteSize (char :: rest) = char.utf8Size + byteSize rest := rfl

@[simp]
theorem byteSize_append (first second : List Char) :
    byteSize (first ++ second) = byteSize first + byteSize second := by
  induction first with
  | nil => simp
  | cons char rest inductionHypothesis => simp [inductionHypothesis, Nat.add_assoc]

theorem length_le_byteSize (text : List Char) : text.length ≤ byteSize text := by
  induction text with
  | nil => exact Nat.zero_le _
  | cons char more inductionHypothesis =>
    have positive := Char.utf8Size_pos char
    rw [List.length_cons, byteSize_cons]
    omega

theorem le_byteSize {text : List Char} (nonempty : text ≠ []) : 1 ≤ byteSize text :=
  Nat.le_trans (List.length_pos_iff.mpr nonempty) (length_le_byteSize text)

/-! ### Cutting a text -/

/-- The text split after `size` bytes, if there is a character boundary at that place. -/
def splitBytes (size : Nat) : List Char → Option (List Char × List Char)
  | [] => if size = 0 then some ([], []) else none
  | char :: rest =>
    if size = 0 then some ([], char :: rest)
    else if char.utf8Size ≤ size then
      (splitBytes (size - char.utf8Size) rest).map fun (head, tail) => (char :: head, tail)
    else none

/-- Splitting loses nothing, and the first part has the size that was asked for. -/
theorem splitBytes_eq_some {size : Nat} {text head tail : List Char}
    (split : splitBytes size text = some (head, tail)) :
    text = head ++ tail ∧ byteSize head = size := by
  induction text generalizing size head with
  | nil =>
    rw [splitBytes] at split
    split at split <;> simp_all
  | cons char rest inductionHypothesis =>
    rw [splitBytes] at split
    split at split
    · simp_all
    · split at split
      · next fits =>
        obtain ⟨⟨innerHead, innerTail⟩, found, equal⟩ := Option.map_eq_some_iff.mp split
        obtain ⟨rfl, rfl⟩ := Prod.mk.injEq .. ▸ equal
        obtain ⟨restEq, sizeEq⟩ := inductionHypothesis found
        exact ⟨by rw [restEq]; rfl, by rw [byteSize_cons, sizeEq]; omega⟩
      · simp at split

/-- Every place between two characters is a place to split at. -/
theorem splitBytes_byteSize (head tail : List Char) :
    splitBytes (byteSize head) (head ++ tail) = some (head, tail) := by
  induction head with
  | nil => cases tail <;> simp [splitBytes]
  | cons char rest inductionHypothesis =>
    have positive := Char.utf8Size_pos char
    rw [List.cons_append, splitBytes, if_neg (by rw [byteSize_cons]; omega),
      if_pos (by rw [byteSize_cons]; omega), byteSize_cons, Nat.add_sub_cancel_left,
      inductionHypothesis]
    rfl

/-- The text at a span, if the span is in order, in range and ends on character boundaries. -/
def slice? (source : List Char) (span : Span) : Option (List Char) :=
  if span.start ≤ span.stop then
    (splitBytes span.start source).bind fun (_, fromStart) =>
      (splitBytes (span.stop - span.start) fromStart).map fun (head, _) => head
  else none

/-- The middle of a text is its slice between the two offsets where the middle begins and ends. -/
theorem slice?_append (front middle back : List Char) :
    slice? (front ++ middle ++ back) ⟨byteSize front, byteSize front + byteSize middle⟩ =
      some middle := by
  simp [slice?, splitBytes_byteSize, List.append_assoc]

end TagMigration
