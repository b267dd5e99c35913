/-
Expressions that are spelled out. A pass builds expressions that were never read, and the printer
writes them from their fields. If the names in such an expression are words that mean nothing else,
its numbers are numbers and its strings hold no backslash, then its text says what it is: the reader
takes the text for that expression again and stops where the text ends, in front of anything that may
stand behind an expression.
-/
import TagMigration.Proofs.Reading.Written

namespace TagMigration

/-- No name goes on at a blank, at a closing parenthesis or brace, at a `~` marker or at the end. -/
theorem Reader.halts_of_ends {rest : List Char}
    (ends : ∀ char ∈ rest.head?, isBlank char = true ∨ char ∈ [')', '}', '~']) :
    Halts isNameChar rest := by
  rintro char more rfl
  rcases ends char rfl with blank | closing
  · cases named : isNameChar char with
    | false => rfl
    | true =>
      rw [isBlank_of_isNameChar named] at blank
      cases blank
  · have unnamed : [')', '}', '~'].all (!isNameChar ·) = true := by decide
    simpa using List.all_eq_true.mp unnamed char closing

/-- An expression that can be written is printed, whatever the source, and its text is read as that
expression, up to spans. The reader takes the whole text and nothing else, wherever the text stands
and whatever follows it that is empty or begins with a blank, a closing parenthesis, a closing brace
or a `~` marker. -/
theorem expression_reread (expression : Expression) (writable : expression.Writable) :
    ∃ text, (∀ source, expression.print source = .ok text) ∧ ∀ offset rest,
      (∀ char ∈ rest.head?, isBlank char = true ∨ char ∈ [')', '}', '~']) →
        ∃ read, Reader.expression ⟨offset, text ++ rest⟩ =
            .ok (read, ⟨offset + byteSize text, rest⟩) ∧
          read.mapSpans eraseSpan = expression := by
  obtain ⟨text, prints, readsBack⟩ := Reader.exists_readsBack expression writable
  refine ⟨text, prints, fun offset rest ends => ?_⟩
  obtain ⟨read, alike, -, reads⟩ := readsBack.reads offset
  have halts := Reader.halts_of_ends ends
  exact ⟨read, Reader.nests_expression text.length offset text rest _ (Nat.le_refl _)
    fun size enough => reads size rest enough halts, alike⟩

/-- A call with a path called `as` in front of a call, whose arguments are a string with both kinds
of quotes, a number, and a path that begins as a number does, under a key that is a number. -/
def nestedCall : Expression :=
  .call ⟨.path "a/b" none, [.path "as" none, .call ⟨.path "é" none,
    [.literal (.string "'\"'") none, .literal (.number "-1.50") none],
    [⟨"1", .path "1.5.x" none, none⟩]⟩ none], [⟨"true", .literal (.boolean true) none, none⟩]⟩ none

theorem expression_reread_nestedCall : ∃ read : Expression,
    nestedCall.print [] = .ok "(a/b as (é \"'\\\"'\" -1.50 1=1.5.x) true=true)".toList ∧
      Reader.expression ⟨0, "(a/b as (é \"'\\\"'\" -1.50 1=1.5.x) true=true)~\x7d\x7d".toList⟩ =
        .ok (read, ⟨44, "~\x7d\x7d".toList⟩) ∧
      read.mapSpans eraseSpan = nestedCall := by
  have writable : nestedCall.Writable := by
    simp only [nestedCall, Expression.Writable, Call.Writable, WritablePositional, WritableNamed,
      NamedArgument.Writable, Literal.Writable, IsWord, ← List.all_eq_true, true_and, and_true]
    decide +kernel
  obtain ⟨text, prints, reads⟩ := expression_reread nestedCall writable
  have printed : nestedCall.print [] =
      .ok "(a/b as (é \"'\\\"'\" -1.50 1=1.5.x) true=true)".toList := rfl
  obtain rfl := Except.ok.inj ((prints []).symm.trans printed)
  have ends : ∀ char ∈ "~\x7d\x7d".toList.head?,
      isBlank char = true ∨ char ∈ [')', '}', '~'] := by
    rintro char ⟨⟩
    exact .inr (by decide)
  obtain ⟨read, success, alike⟩ := reads 0 "~\x7d\x7d".toList ends
  exact ⟨read, printed, success, alike⟩

end TagMigration
