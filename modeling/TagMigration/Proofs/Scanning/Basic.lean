/-
A scanner and a reader of one source. A cursor is a place in the source if what is left at it is all
that stands behind its offset, and at a place every slice that a scanner takes is one of the texts
that the reader looks at. A scan agrees with what is read if both yield the same value and end at
the same place, or both end with the same fault. A scanner that agrees with a reader takes no bad
slice, does not stand still and does not run out of rounds.
-/
import TagMigration.Error
import TagMigration.Proofs.Tree.Cuts
import TagMigration.Scanner.Basic

namespace TagMigration.Scan

/-! ### Sizes -/

/-- Of two beginnings of a text, the one with fewer characters has fewer bytes. -/
theorem byteSize_le_iff {first second text : List Char} (isFirst : first <+: text)
    (isSecond : second <+: text) :
    byteSize first ≤ byteSize second ↔ first.length ≤ second.length := by
  rcases List.prefix_or_prefix_of_prefix isFirst isSecond with ⟨middle, rfl⟩ | ⟨middle, rfl⟩
  · rw [byteSize_append, List.length_append]
    exact iff_of_true (Nat.le_add_right _ _) (Nat.le_add_right _ _)
  · by_cases empty : middle = []
    · rw [empty, List.append_nil]
      exact iff_of_true (Nat.le_refl _) (Nat.le_refl _)
    · have size := le_byteSize empty
      have length := List.length_pos_iff.mpr empty
      rw [byteSize_append, List.length_append]
      exact iff_of_false (by omega) (by omega)

/-! ### Places -/

/-- The cursor is a place in the source: what is left at it is all that stands behind its offset. -/
def At (source : List Char) (cursor : Cursor) : Prop :=
  ∃ front, source = front ++ cursor.rest ∧ byteSize front = cursor.offset

section Places

variable {source : List Char}

theorem at_ofText (source : List Char) : At source (.ofText source) :=
  ⟨[], rfl, rfl⟩

theorem At.isBoundary {cursor : Cursor} (here : At source cursor) :
    IsBoundary source cursor.offset := by
  obtain ⟨front, isSource, size⟩ := here
  exact ⟨front, _, isSource, size⟩

/-- Behind a text that stands at a place is a place. -/
theorem At.behind {offset : Nat} {front back : List Char}
    (here : At source ⟨offset, front ++ back⟩) :
    At source ⟨offset + byteSize front, back⟩ := by
  obtain ⟨before, isSource, size⟩ := here
  refine ⟨before ++ front, by rw [isSource]; simp, ?_⟩
  rw [byteSize_append, size]

theorem At.skip {cursor : Cursor} (here : At source cursor) (count : Nat) :
    At source (cursor.skip count) := by
  refine @At.behind _ cursor.offset (cursor.rest.take count) _ ?_
  rw [List.take_append_drop]
  exact here

/-- Of two places in a source, less is left at the one further on. -/
theorem At.length_lt {cursor after : Cursor} (here : At source cursor) (there : At source after)
    (further : cursor.offset < after.offset) : after.rest.length < cursor.rest.length := by
  obtain ⟨front, isSource, size⟩ := here
  obtain ⟨first, isSourceToo, sizeToo⟩ := there
  obtain ⟨middle, rfl, isRest⟩ := exists_append_of_byteSize_le (isSource.symm.trans isSourceToo)
    (by omega)
  have nonempty : middle ≠ [] := by
    rintro rfl
    rw [List.append_nil] at sizeToo
    omega
  have long := List.length_pos_iff.mpr nonempty
  rw [isRest, List.length_append]
  omega

theorem At.size {cursor : Cursor} (here : At source cursor) :
    cursor.offset + byteSize cursor.rest = byteSize source := by
  obtain ⟨front, rfl, size⟩ := here
  rw [byteSize_append, size]

theorem at_end (source : List Char) : At source ⟨byteSize source, []⟩ :=
  ⟨source, (List.append_nil source).symm, rfl⟩

theorem At.length_le {cursor : Cursor} (here : At source cursor) :
    cursor.rest.length ≤ source.length := by
  obtain ⟨front, rfl, -⟩ := here
  rw [List.length_append]
  exact Nat.le_add_left _ _

/-! ### Slices at places -/

theorem rest_eq {cursor : Cursor} (here : At source cursor) :
    rest source cursor.offset = .ok cursor.rest := by
  obtain ⟨front, isSource, size⟩ := here
  rw [rest, ← size, isSource, splitBytes_byteSize]

theorem slice_eq {offset : Nat} {front back : List Char}
    (here : At source ⟨offset, front ++ back⟩) :
    slice source offset (offset + byteSize front) = .ok front := by
  obtain ⟨before, isSource, size⟩ := here
  have stands : Stands source offset front := ⟨before, back, isSource, size⟩
  rw [slice, stands.slice?]

theorem skipBlanks_eq {cursor : Cursor} (here : At source cursor) :
    skipBlanks source cursor.offset = .ok cursor.skipBlanks.offset := by
  have split := congrArg byteSize (@List.takeWhile_append_dropWhile _ isBlank cursor.rest)
  rw [byteSize_append] at split
  have taken : cursor.skipBlanks.offset =
      cursor.offset + byteSize (cursor.rest.takeWhile isBlank) := by
    rw [Cursor.skipBlanks, Cursor.skip,
      ← List.prefix_iff_eq_take.mp (List.takeWhile_prefix isBlank)]
  rw [taken, skipBlanks, rest_eq here]
  exact congrArg Except.ok (by omega)

theorem At.skipBlanks {cursor : Cursor} (here : At source cursor) : At source cursor.skipBlanks :=
  here.skip _

/-- The offset behind a token that stands at a place. -/
theorem skip_offset {cursor : Cursor} {token : List Char} (starts : token <+: cursor.rest) :
    (cursor.skip token.length).offset = cursor.offset + byteSize token := by
  rw [Cursor.skip, ← List.prefix_iff_eq_take.mp starts]

/-- The place behind one character of one byte. -/
theorem skip_one {offset : Nat} {char : Char} {text : List Char} (single : char.utf8Size = 1) :
    (⟨offset, char :: text⟩ : Cursor).skip 1 = ⟨offset + 1, text⟩ := by
  simp only [Cursor.skip, List.take_succ_cons, List.take_zero, List.drop_succ_cons, List.drop_zero,
    byteSize_cons, byteSize_nil, single, Nat.add_zero]

theorem eat_eq {cursor : Cursor} (here : At source cursor) (token : List Char) :
    eat source token cursor.offset =
      .ok (if cursor.startsWith token then (true, (cursor.skip token.length).offset)
        else (false, cursor.offset)) := by
  rw [eat, rest_eq here, Cursor.startsWith]
  split
  · next starts =>
    rw [skip_offset (List.isPrefixOf_iff_prefix.mp starts)]
    exact congrArg Except.ok (if_pos starts)
  · next absent => exact congrArg Except.ok (if_neg absent)

theorem eat_tilde {cursor : Cursor} (here : At source cursor) :
    eat source ['~'] cursor.offset = .ok (cursor.eatTilde.1, cursor.eatTilde.2.offset) := by
  rw [eat_eq here, Cursor.eatTilde, Cursor.eat?]
  split <;> rfl

theorem skip_le (cursor : Cursor) (count : Nat) : cursor.offset ≤ (cursor.skip count).offset :=
  Nat.le_add_right _ _

theorem blanks_le (cursor : Cursor) : cursor.offset ≤ cursor.skipBlanks.offset :=
  skip_le _ _

/-- Behind a `~` marker that may stand here is a place one or no character further on. -/
theorem exists_skip_eatTilde (cursor : Cursor) : ∃ count, cursor.eatTilde.2 = cursor.skip count := by
  rw [Cursor.eatTilde, Cursor.eat?]
  split
  · next eaten =>
    split at eaten
    · cases eaten
      exact ⟨1, rfl⟩
    · cases eaten
  · exact ⟨0, rfl⟩

theorem At.eatTilde {cursor : Cursor} (here : At source cursor) : At source cursor.eatTilde.2 := by
  obtain ⟨count, equal⟩ := exists_skip_eatTilde cursor
  rw [equal]
  exact here.skip count

theorem eatTilde_le (cursor : Cursor) : cursor.offset ≤ cursor.eatTilde.2.offset := by
  obtain ⟨count, equal⟩ := exists_skip_eatTilde cursor
  rw [equal]
  exact skip_le cursor count

end Places

/-! ### Agreement -/

/-- The fault blames a character boundary of the source, and if the reader refuses a construct,
two braces stand there. -/
def Blames (source : List Char) (fault : Fault) : Prop :=
  ∃ front back, source = front ++ back ∧ byteSize front = fault.offset ∧
    (Error.isRefusal fault.cause = true → ['{', '{'] <+: back)

/-- A scan agrees with what is read: both yield the same value, and the scan ends at the offset of
the cursor, which is a place in the source and not in front of `least`; or both end with the same
fault. -/
inductive Agrees {α : Type} (source : List Char) (least : Nat) :
    Except Halt (α × Nat) → Except Fault (α × Cursor) → Prop where
  | ok {value : α} {after : Cursor} (there : At source after) (onward : least ≤ after.offset) :
    Agrees source least (.ok (value, after.offset)) (.ok (value, after))
  | fault {fault : Fault} (blames : Blames source fault) :
    Agrees source least (.error (.fault fault)) (.error fault)

section Agreement

variable {source : List Char} {least : Nat}

theorem Agrees.mono {α : Type} {scan : Except Halt (α × Nat)} {read : Except Fault (α × Cursor)}
    {middle : Nat} (agrees : Agrees source middle scan read) (onward : least ≤ middle) :
    Agrees source least scan read := by
  cases agrees with
  | ok there further => exact .ok there (Nat.le_trans onward further)
  | fault blames => exact .fault blames

/-- What is read is scanned. -/
theorem Agrees.eq_ok {α : Type} {scan : Except Halt (α × Nat)} {value : α} {after : Cursor}
    (agrees : Agrees source least scan (.ok (value, after))) :
    scan = .ok (value, after.offset) := by
  cases agrees
  rfl

/-- A step that succeeds. -/
theorem bind_ok {α β : Type} {scan : Except Halt β} {value : β} {next : β → Except Halt α}
    (success : scan = .ok value) : scan >>= next = next value := by
  rw [success]
  rfl

/-- A step of the scanner alone that succeeds. -/
theorem Agrees.step {α β : Type} {scan : Except Halt β} {value : β}
    {next : β → Except Halt (α × Nat)} {read : Except Fault (α × Cursor)}
    (success : scan = .ok value) (agrees : Agrees source least (next value) read) :
    Agrees source least (scan >>= next) read := by
  rw [bind_ok success]
  exact agrees

/-- Steps that agree one after the other. -/
theorem Agrees.bind_read {α β : Type} {scan : Except Halt (β × Nat)}
    {read : Except Fault (β × Cursor)} {next : β × Nat → Except Halt (α × Nat)}
    {follow : β × Cursor → Except Fault (α × Cursor)} {middle : Nat}
    (first : Agrees source middle scan read)
    (second : ∀ value after, read = .ok (value, after) → At source after → middle ≤ after.offset →
      Agrees source least (next (value, after.offset)) (follow (value, after))) :
    Agrees source least (scan >>= next) (read >>= follow) := by
  cases first with
  | ok there onward => exact second _ _ rfl there onward
  | fault blames => exact .fault blames

theorem Agrees.bind {α β : Type} {scan : Except Halt (β × Nat)} {read : Except Fault (β × Cursor)}
    {next : β × Nat → Except Halt (α × Nat)} {follow : β × Cursor → Except Fault (α × Cursor)}
    {middle : Nat} (first : Agrees source middle scan read)
    (second : ∀ value after, At source after → middle ≤ after.offset →
      Agrees source least (next (value, after.offset)) (follow (value, after))) :
    Agrees source least (scan >>= next) (read >>= follow) :=
  first.bind_read fun value after _ => second value after

/-- A choice that both make alike. -/
theorem Agrees.choice {α : Type} {test : Prop} [Decidable test]
    {scan otherScan : Except Halt (α × Nat)} {read otherRead : Except Fault (α × Cursor)}
    (holds : test → Agrees source least scan read)
    (fails : ¬ test → Agrees source least otherScan otherRead) :
    Agrees source least (if test then scan else otherScan) (if test then read else otherRead) := by
  split
  · next yes => exact holds yes
  · next no => exact fails no

theorem agrees_ok {α : Type} {value found : α} {after : Cursor} {place : Nat}
    (there : At source after)
    (sameValue : value = found) (samePlace : place = after.offset) (onward : least ≤ after.offset) :
    Agrees source least (.ok (value, place)) (.ok (found, after)) := by
  subst sameValue samePlace
  exact .ok there onward

/-- A fault that refuses no construct may blame any boundary. -/
theorem blames_of_isBoundary {offset : Nat} {cause : Cause} (boundary : IsBoundary source offset)
    (plain : Error.isRefusal cause = false) : Blames source ⟨offset, cause⟩ := by
  obtain ⟨front, back, isSource, size⟩ := boundary
  refine ⟨front, back, isSource, size, fun refuses => ?_⟩
  rw [plain] at refuses
  cases refuses

theorem agrees_fault {α : Type} {offset : Nat} {cause : Cause} (boundary : IsBoundary source offset)
    (plain : Error.isRefusal cause = false) :
    @Agrees α source least (blame offset cause) (TagMigration.fault offset cause) :=
  .fault (blames_of_isBoundary boundary plain)

/-- A construct that is refused is blamed where its two braces stand. -/
theorem agrees_refusal {α : Type} {cursor : Cursor} (here : At source cursor)
    (braces : ['{', '{'] <+: cursor.rest) (construct : Construct) :
    @Agrees α source least (blame cursor.offset (.unrecognized construct))
      (TagMigration.fault cursor.offset (.unrecognized construct)) := by
  obtain ⟨front, isSource, size⟩ := here
  exact .fault ⟨front, cursor.rest, isSource, size, fun _ => braces⟩

/-- From `bound` on, the scanner agrees with the reader and gets at least `step` bytes further. -/
def Scans {α : Type} (source : List Char) (bound step : Nat)
    (scan : Nat → Except Halt (α × Nat)) (read : Cursor → Except Fault (α × Cursor)) : Prop :=
  ∀ cursor, At source cursor → bound ≤ cursor.offset →
    Agrees source (cursor.offset + step) (scan cursor.offset) (read cursor)

theorem goOn_eq {place after : Nat} (further : place < after) : goOn place after = .ok () :=
  if_pos further

end Agreement

end TagMigration.Scan
