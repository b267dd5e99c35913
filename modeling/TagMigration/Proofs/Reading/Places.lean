/-
Where invocations begin in a text that was read. What a phrase was read from ends where the
next one begins, and a block begins before all that it holds. So no two invocations of a
template begin at the same place, and each begins inside the text. Chained inverses are
read as one block.
-/
import TagMigration.Proofs.Reading.ReadBack

namespace TagMigration

/-! ### Places in a range -/

/-- Places that are known and distinct, none before `low` and all before `high`. -/
structure Placed (low high : Nat) (places : List (Option Nat)) : Prop where
  within : ∀ place ∈ places, ∃ id, place = some id ∧ low ≤ id ∧ id < high
  distinct : places.Nodup

section Placed

variable {low middle high : Nat} {first second : List (Option Nat)}

theorem placed_nil (low high : Nat) : Placed low high [] :=
  ⟨by simp, List.nodup_nil⟩

theorem Placed.append (placed : Placed low middle first) (more : Placed middle high second)
    (lower : low ≤ middle) (upper : middle ≤ high) : Placed low high (first ++ second) where
  within place member := by
    rcases List.mem_append.mp member with left | right
    · obtain ⟨id, rfl, atLeast, less⟩ := placed.within place left
      exact ⟨id, rfl, atLeast, by omega⟩
    · obtain ⟨id, rfl, atLeast, less⟩ := more.within place right
      exact ⟨id, rfl, by omega, less⟩
  distinct := by
    refine List.nodup_append.mpr ⟨placed.distinct, more.distinct, fun place left other right => ?_⟩
    rintro rfl
    obtain ⟨id, rfl, -, less⟩ := placed.within place left
    obtain ⟨id, equal, atLeast, -⟩ := more.within _ right
    cases equal
    omega

theorem Placed.cons (placed : Placed middle high first) (lower : low < middle)
    (upper : middle ≤ high) : Placed low high (some low :: first) := by
  have alone : Placed low middle [some low] :=
    ⟨by simpa using lower, List.nodup_cons.mpr ⟨by simp, List.nodup_nil⟩⟩
  exact alone.append placed (Nat.le_of_lt lower) upper

theorem Placed.widen (placed : Placed middle high first) (lower : low ≤ middle) {further : Nat}
    (upper : high ≤ further) : Placed low further first where
  within place member := by
    obtain ⟨id, rfl, atLeast, less⟩ := placed.within place member
    exact ⟨id, rfl, by omega, by omega⟩
  distinct := placed.distinct

theorem Placed.known (placed : Placed low high first) : none ∉ first := by
  intro member
  obtain ⟨id, absurd, -⟩ := placed.within none member
  cases absurd

end Placed

namespace Reader

theorem byteSize_pos {text : List Char} (nonempty : text ≠ []) : 0 < byteSize text := by
  obtain ⟨char, rest, rfl⟩ := List.exists_cons_of_ne_nil nonempty
  have positive := Char.utf8Size_pos char
  rw [byteSize_cons]
  omega

theorem IsSingle.placed {offset : Nat} {text : List Char} {statement : Statement}
    (isSingle : IsSingle offset text statement) :
    Placed offset (offset + byteSize text) statement.places := by
  cases isSingle with
  | @mustache tag isMustache =>
    have positive : 0 < byteSize text :=
      byteSize_pos (List.length_pos_iff.mp (Nat.lt_of_lt_of_le (by decide) isMustache.long))
    rw [Statement.places, isMustache.span]
    exact (placed_nil _ _).cons (Nat.lt_add_of_pos_right positive) (Nat.le_refl _)
  | curlyComment => exact placed_nil _ _
  | comment => exact placed_nil _ _
  | element => exact placed_nil _ _

/-- A block begins before its program and its inverse. -/
theorem placed_block {offset : Nat} {start inside tail : List Char} {program others : List (Option Nat)}
    (nonempty : start ≠ [])
    (content : Placed (offset + byteSize start) (offset + byteSize start + byteSize inside) program)
    (inverse : Placed (offset + byteSize (start ++ inside))
      (offset + byteSize (start ++ inside) + byteSize tail) others) :
    Placed offset (offset + byteSize (start ++ inside ++ tail))
      (some offset :: (program ++ others)) := by
  have positive := byteSize_pos nonempty
  rw [byteSize_append, ← Nat.add_assoc] at inverse
  rw [byteSize_append, byteSize_append, ← Nat.add_assoc, ← Nat.add_assoc]
  exact (content.append inverse (by omega) (by omega)).cons (by omega) (by omega)

/-- The invocations of a phrase begin inside the text that it was read from, no two of them at the
same place. -/
theorem Spelling.placed {next : Option Char} {offset : Nat} {text : List Char} {phrase : Phrase}
    (spelling : Spelling next offset text phrase) :
    Placed offset (offset + byteSize text) phrase.places := by
  induction spelling with
  | nil => exact placed_nil _ _
  | @text next offset run rest body nonempty isRun ended more placedMore =>
    rw [byteSize_append, ← Nat.add_assoc]
    exact placedMore.widen (Nat.le_add_right _ _) (Nat.le_refl _)
  | single takes more placedMore =>
    rw [byteSize_append, ← Nat.add_assoc]
    exact (single_yields.property takes).placed.append placedMore (Nat.le_add_right _ _)
      (Nat.le_add_right _ _)
  | @element next offset opening inside closing rest tag start children body starts open' content
      ends more placedChildren placedMore =>
    have upTo : offset + byteSize opening + byteSize inside ≤
        offset + byteSize (opening ++ inside ++ closing) := by
      simp only [byteSize_append]
      omega
    rw [byteSize_append, ← Nat.add_assoc]
    exact (placedChildren.widen (Nat.le_add_right _ _) upTo).append placedMore
      (Nat.le_add_right _ _) (Nat.le_add_right _ _)
  | @block next offset start inside tail closing rest opening elseTrim closeTrim elseSpan program
      body inverse starts content others ends more placedProgram placedOthers placedMore =>
    have nonempty : start ≠ [] := ne_nil_of_takes starts fun _ => ⟨_, rfl⟩
    have upTo : offset + byteSize (start ++ inside ++ tail) ≤
        offset + byteSize (start ++ inside ++ tail ++ closing) := by
      simp only [byteSize_append]
      omega
    rw [byteSize_append, ← Nat.add_assoc]
    exact ((placed_block nonempty placedProgram placedOthers).widen (Nat.le_refl _) upTo).append
      placedMore (Nat.le_add_right _ _) (Nat.le_add_right _ _)
  | noInverse => exact placed_nil _ _
  | @elseBody offset piece inside tags body starts elseSpan content placedBody =>
    rw [byteSize_append, ← Nat.add_assoc]
    exact placedBody.widen (Nat.le_add_right _ _) (Nat.le_refl _)
  | @elseBlock offset start inside tail tags opening elseTrim elseSpan program inverse noElseTrim
      noElseSpan starts content others placedProgram placedOthers =>
    have nonempty : start ≠ [] := ne_nil_of_takes starts fun _ => ⟨_, rfl⟩
    have placed := placed_block nonempty placedProgram placedOthers
    rwa [← List.append_nil (some offset :: _)] at placed

/-- A phrase that was read is regular. -/
theorem Spelling.regular {next : Option Char} {offset : Nat} {text : List Char} {phrase : Phrase}
    (spelling : Spelling next offset text phrase) : Regular phrase := by
  induction spelling with
  | nil => exact .nil
  | text nonempty isRun ended more regularMore => exact .leaf rfl regularMore
  | single takes more regularMore =>
    cases single_yields.property takes with
    | mustache => exact .leaf rfl regularMore
    | curlyComment => exact .leaf rfl regularMore
    | comment => exact .leaf rfl regularMore
    | element => exact .element .nil regularMore
  | element starts open' content ends more regularChildren regularMore =>
    exact .element regularChildren regularMore
  | block starts content others ends more regularProgram regularOthers regularMore =>
    exact .block regularProgram regularOthers regularMore
  | noInverse => exact .noInverse
  | elseBody starts elseSpan content regularBody => exact .elseBody regularBody
  | elseBlock noElseTrim noElseSpan starts content others regularProgram regularOthers =>
    exact .elseBlock regularProgram regularOthers

end Reader

end TagMigration
