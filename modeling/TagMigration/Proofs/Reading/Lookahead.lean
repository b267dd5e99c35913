/-
How far a look ahead goes. The readers tell their cases apart by what stands further on:
a run of characters of one class, a token, an equals sign after blanks, the first
occurrence of an ending. Each look ends at the latest at a character that belongs to none
of the classes in question, and what stands after that character makes no difference.
These are the facts by which a reader can be shown not to look past what it reads.
-/
import TagMigration.Proofs.Reading.Tag
import TagMigration.Template.Printer

namespace TagMigration

/-! ### Runs of one class -/

/-- The text does not begin with a character of the class. -/
def Halts (class? : Char → Bool) (text : List Char) : Prop :=
  ∀ char rest, text = char :: rest → class? char = false

section Runs

variable {class? : Char → Bool} {run rest front back : List Char} {char : Char}

theorem halts_nil : Halts class? [] := by
  intro char rest equal
  cases equal

theorem halts_cons : Halts class? (char :: rest) ↔ class? char = false := by
  constructor
  · intro halts
    exact halts char rest rfl
  · rintro fails char rest ⟨rfl, rfl⟩
    exact fails

/-- Whether a text halts is settled by its first character. -/
theorem halts_append (nonempty : front ≠ []) : Halts class? (front ++ back) ↔ Halts class? front := by
  cases front with
  | nil => exact absurd rfl nonempty
  | cons char rest => rw [List.cons_append, halts_cons, halts_cons]

theorem takeWhile_of_halts (halts : Halts class? rest) : rest.takeWhile class? = [] := by
  cases rest with
  | nil => rfl
  | cons char rest => rw [List.takeWhile_cons, halts_cons.mp halts]; rfl

theorem takeWhile_run (inside : ∀ char ∈ run, class? char = true) (halts : Halts class? rest) :
    (run ++ rest).takeWhile class? = run := by
  rw [List.takeWhile_append_of_pos inside, takeWhile_of_halts halts, List.append_nil]

theorem dropWhile_run (inside : ∀ char ∈ run, class? char = true) (halts : Halts class? rest) :
    (run ++ rest).dropWhile class? = rest := by
  have both := (run ++ rest).takeWhile_append_dropWhile (p := class?)
  rw [takeWhile_run inside halts] at both
  exact List.append_cancel_left both

/-- Every text is a run of the class and a text that does not begin with the class. -/
theorem exists_run (class? : Char → Bool) (text : List Char) :
    ∃ run rest, text = run ++ rest ∧ (∀ char ∈ run, class? char = true) ∧ Halts class? rest := by
  refine ⟨text.takeWhile class?, text.dropWhile class?, List.takeWhile_append_dropWhile.symm,
    List.all_eq_true.mp List.all_takeWhile, ?_⟩
  rintro char rest equal
  have fails := List.head?_dropWhile_not class? text
  rw [equal] at fails
  simpa using fails

/-- A run does not go past a character outside the class. -/
theorem takeWhile_stop (fails : class? char = false) :
    (front ++ char :: back).takeWhile class? = front.takeWhile class? := by
  induction front with
  | nil => rw [List.nil_append, List.takeWhile_cons, fails]; rfl
  | cons first front inductionHypothesis =>
    rw [List.cons_append, List.takeWhile_cons, List.takeWhile_cons, inductionHypothesis]

end Runs

/-! ### Tokens -/

section Tokens

variable {token front back : List Char}

/-- A token that is not longer than a text is looked for in that text only. -/
theorem isPrefixOf_append (front back : List Char) (fits : token.length ≤ front.length) :
    token.isPrefixOf (front ++ back) = token.isPrefixOf front := by
  induction token generalizing front with
  | nil => simp
  | cons char token inductionHypothesis =>
    cases front with
    | nil => simp at fits
    | cons first front =>
      rw [List.cons_append, List.isPrefixOf, List.isPrefixOf,
        inductionHypothesis front (Nat.le_of_succ_le_succ fits)]

/-- A token is not found past a character that it may only end with. -/
theorem isPrefixOf_stop {char : Char} (only : char ∉ token.dropLast) (back other : List Char) :
    token.isPrefixOf (front ++ char :: back) = token.isPrefixOf (front ++ char :: other) := by
  induction token generalizing front with
  | nil => simp
  | cons first token inductionHypothesis =>
    cases token with
    | nil => cases front <;> simp [List.isPrefixOf]
    | cons second token =>
      have others : char ∉ (second :: token).dropLast := fun member => only (by simp_all)
      have differs : first ≠ char := fun equal => only (by simp [equal])
      cases front with
      | nil =>
        have fails : (first == char) = false := beq_eq_false_iff_ne.mpr differs
        rw [List.nil_append, List.nil_append, List.isPrefixOf, List.isPrefixOf, fails]
        rfl
      | cons letter front =>
        rw [List.cons_append, List.cons_append, List.isPrefixOf, List.isPrefixOf,
          inductionHypothesis others]

/-- The first occurrence of a token depends only on the text up to its end. -/
theorem before?_append {other head : List Char} (found : before? token (front ++ back) = some head)
    (fits : head.length + token.length ≤ front.length) :
    before? token (front ++ other) = some head := by
  induction front generalizing head with
  | nil =>
    obtain ⟨rfl, rfl⟩ : head = [] ∧ token = [] := by simpa using fits
    cases other <;> rfl
  | cons first front inductionHypothesis =>
    have within : token.length ≤ (first :: front).length := by omega
    rw [List.cons_append, before?, ← List.cons_append, isPrefixOf_append _ _ within] at found ⊢
    split at found
    · next starts => rw [if_pos starts]; exact found
    · next starts =>
      rw [if_neg starts]
      obtain ⟨inner, foundInner, rfl⟩ := Option.map_eq_some_iff.mp found
      rw [inductionHypothesis foundInner (by simp at fits; omega)]
      rfl

end Tokens

/-! ### Places -/

namespace Cursor

variable (offset : Nat)

theorem skip_append (front back : List Char) :
    (⟨offset, front ++ back⟩ : Cursor).skip front.length = ⟨offset + byteSize front, back⟩ := by
  simp only [skip, List.take_left, List.drop_left]

theorem skip_append_of_length {front back : List Char} {count : Nat}
    (length : front.length = count) :
    (⟨offset, front ++ back⟩ : Cursor).skip count = ⟨offset + byteSize front, back⟩ := by
  rw [← length, skip_append]

theorem skipBlanks_append {blanks rest : List Char} (inside : ∀ char ∈ blanks, isBlank char = true)
    (halts : Halts isBlank rest) :
    (⟨offset, blanks ++ rest⟩ : Cursor).skipBlanks = ⟨offset + byteSize blanks, rest⟩ := by
  simp only [skipBlanks, takeWhile_run inside halts, skip_append]

theorem skipBlanks_of_halts {rest : List Char} (halts : Halts isBlank rest) :
    (⟨offset, rest⟩ : Cursor).skipBlanks = ⟨offset, rest⟩ :=
  @skipBlanks_append offset [] rest (fun _ member => nomatch member) halts

/-- Whether a `~` marker is eaten, and what is left. -/
theorem eatTilde_tilde {present : Bool} {rest : List Char}
    (other : present = false → rest.head? ≠ some '~') :
    (⟨offset, tilde present ++ rest⟩ : Cursor).eatTilde =
      (present, ⟨offset + byteSize (tilde present), rest⟩) := by
  cases present with
  | true => rfl
  | false =>
    cases rest with
    | nil => rfl
    | cons char rest =>
      have differs : ¬ '~' = char := fun equal => other rfl (by rw [← equal]; rfl)
      simp [eatTilde, eat?, startsWith, tilde, List.isPrefixOf, differs]

/-- Every text is a `~` marker or none, and the rest after it. -/
theorem exists_tilde (text : List Char) :
    ∃ present rest, text = tilde present ++ rest ∧
      (present = false → rest.head? ≠ some '~') := by
  by_cases starts : text.head? = some '~'
  · cases text with
    | nil => cases starts
    | cons char rest =>
      rw [List.head?_cons] at starts
      exact ⟨true, rest, by rw [Option.some.inj starts]; rfl, fun absurd => nomatch absurd⟩
  · exact ⟨false, text, rfl, fun _ => starts⟩

end Cursor

end TagMigration
