/-
Runs of text. A run ends where something follows that ends text, or at the end of the input.
Of what follows, only the first character can make a difference: a brace in front of it or a
backslash would join with it. So a run stays a run if it is put in front of another text that
ends text and begins with the same character, if an angle bracket follows instead of a brace, and
also if nothing follows it at all.
-/
import TagMigration.Proofs.Reading.Piece

namespace TagMigration.Reader

/-- A run of text can end in front of this text. -/
def EndsRun (text : List Char) : Prop :=
  text = [] ∨ endsText text = true

/-- What ends a run begins with two braces or with an angle bracket. -/
theorem EndsRun.cases {text : List Char} (ends : EndsRun text) :
    text = [] ∨ (∃ rest, text = '{' :: '{' :: rest) ∨ ∃ rest, text = '<' :: rest := by
  rcases ends with empty | ends
  · exact .inl empty
  · simp only [endsText, Bool.or_eq_true] at ends
    rcases ends with ((curly | comment) | closing) | element
    · obtain ⟨rest, rfl⟩ := List.isPrefixOf_iff_prefix.mp curly
      exact .inr (.inl ⟨rest, rfl⟩)
    · obtain ⟨rest, rfl⟩ := List.isPrefixOf_iff_prefix.mp comment
      exact .inr (.inr ⟨_, rfl⟩)
    · obtain ⟨rest, rfl⟩ := List.isPrefixOf_iff_prefix.mp closing
      exact .inr (.inr ⟨_, rfl⟩)
    · obtain ⟨char, rest, rfl, -⟩ := startsElement_eq_true element
      exact .inr (.inr ⟨_, rfl⟩)

/-- Content stops only where text ends. -/
theorem endsRun_of_stop? {text : List Char} {stop : Stop} (stops : stop? text = some stop) :
    EndsRun text := by
  unfold stop? at stops
  split at stops
  · exact .inl rfl
  · exact .inr rfl
  · exact .inr rfl
  · cases stops

theorem isPrefixOf_longer {token text : List Char} (found : token.isPrefixOf text = true)
    (rest : List Char) : token.isPrefixOf (text ++ rest) = true := by
  obtain ⟨tail, rfl⟩ := List.isPrefixOf_iff_prefix.mp found
  exact List.isPrefixOf_iff_prefix.mpr ⟨tail ++ rest, by simp⟩

theorem endsText_append {text : List Char} (ends : endsText text = true) (rest : List Char) :
    endsText (text ++ rest) = true := by
  simp only [endsText, Bool.or_eq_true] at ends ⊢
  rcases ends with ((curly | comment) | closing) | element
  · exact .inl (.inl (.inl (isPrefixOf_longer curly rest)))
  · exact .inl (.inl (.inr (isPrefixOf_longer comment rest)))
  · exact .inl (.inr (isPrefixOf_longer closing rest))
  · obtain ⟨char, tail, rfl, isStart⟩ := startsElement_eq_true element
    exact .inr isStart

/-! ### The run and what follows it -/

theorem textRun_escape (rest : List Char) :
    textRun ('\\' :: '{' :: '{' :: rest) = '\\' :: '{' :: '{' :: escapedRun rest := by
  rw [textRun]

theorem textRun_plain {char : Char} {rest : List Char}
    (plain : ['\\', '{', '{'].isPrefixOf (char :: rest) = false) :
    textRun (char :: rest) = if endsText (char :: rest) then [] else char :: textRun rest := by
  rw [textRun]
  rintro rest rfl rfl
  cases plain

theorem escapedRun_braces (rest : List Char) :
    escapedRun ('}' :: '}' :: rest) = '}' :: '}' :: textRun rest := by
  rw [escapedRun]

theorem escapedRun_plain {char : Char} {rest : List Char}
    (plain : ['}', '}'].isPrefixOf (char :: rest) = false) :
    escapedRun (char :: rest) = char :: escapedRun rest := by
  rw [escapedRun]
  rintro rest rfl rfl
  cases plain

theorem textRun_of_endsRun {text : List Char} (ends : EndsRun text) : textRun text = [] := by
  rcases ends with rfl | ends
  · rw [textRun]
  · rcases EndsRun.cases (.inr ends) with rfl | ⟨rest, rfl⟩ | ⟨rest, rfl⟩
    · rw [textRun]
    · rw [textRun_plain rfl, if_pos ends]
    · rw [textRun_plain rfl, if_pos ends]

/-- Two texts that a run can end in front of and that cannot be told apart from inside the run. -/
def Alike (back other : List Char) : Prop :=
  (back = [] ∧ other = []) ∨
    (∃ first second, back = '{' :: '{' :: first ∧ other = '{' :: '{' :: second) ∨
      ∃ first second, back = '<' :: first ∧ other = '<' :: second

theorem alike_of_head? {back other : List Char} (ends : EndsRun back) (endsOther : EndsRun other)
    (same : back.head? = other.head?) : Alike back other := by
  rcases ends.cases with rfl | ⟨first, rfl⟩ | ⟨first, rfl⟩ <;>
    rcases endsOther.cases with rfl | ⟨second, rfl⟩ | ⟨second, rfl⟩ <;> try cases same
  · exact .inl ⟨rfl, rfl⟩
  · exact .inr (.inl ⟨first, second, rfl, rfl⟩)
  · exact .inr (.inr ⟨first, second, rfl, rfl⟩)

/-- A token of the kinds that are looked for in a run is found in front of both texts or of none. -/
theorem Alike.isPrefixOf {back other : List Char} (alike : Alike back other) {token : List Char}
    (bracket : '<' ∉ token.tail.dropLast) (brace : '{' ∉ token.tail.dropLast ∨ token.length ≤ 3)
    (char : Char) (run : List Char) :
    token.isPrefixOf (char :: (run ++ back)) = token.isPrefixOf (char :: (run ++ other)) := by
  have stop {letter : Char} (only : letter ∉ token.tail.dropLast) (first second : List Char) :
      token.isPrefixOf (char :: (run ++ letter :: first)) =
        token.isPrefixOf (char :: (run ++ letter :: second)) := by
    cases token with
    | nil => rfl
    | cons head token =>
      rw [List.tail_cons] at only
      rw [List.isPrefixOf, List.isPrefixOf, isPrefixOf_stop only first second]
  rcases alike with ⟨rfl, rfl⟩ | ⟨first, second, rfl, rfl⟩ | ⟨first, second, rfl, rfl⟩
  · rfl
  · rcases brace with only | short
    · exact stop only _ _
    · have fits : token.length ≤ (char :: (run ++ ['{', '{'])).length := by
        simp only [List.length_cons, List.length_append, List.length_nil]
        omega
      have upTo (rest : List Char) : char :: (run ++ '{' :: '{' :: rest) =
          char :: (run ++ ['{', '{']) ++ rest := by
        simp
      rw [upTo first, upTo second, isPrefixOf_append _ _ fits, isPrefixOf_append _ _ fits]
  · exact stop bracket _ _

theorem Alike.endsText {back other : List Char} (alike : Alike back other) (char : Char)
    (run : List Char) :
    endsText (char :: (run ++ back)) = endsText (char :: (run ++ other)) := by
  have element : startsElement (char :: (run ++ back)) = startsElement (char :: (run ++ other)) := by
    cases run with
    | cons first run => by_cases bracket : char = '<' <;> simp [startsElement, bracket]
    | nil =>
      rcases alike with ⟨rfl, rfl⟩ | ⟨first, second, rfl, rfl⟩ | ⟨first, second, rfl, rfl⟩
      · rfl
      · by_cases bracket : char = '<' <;> simp [startsElement, bracket]
      · by_cases bracket : char = '<' <;> simp [startsElement, bracket]
  rw [Reader.endsText, Reader.endsText, element, alike.isPrefixOf (by decide) (.inl (by decide)),
    alike.isPrefixOf (by decide) (.inl (by decide)), alike.isPrefixOf (by decide) (.inl (by decide))]

theorem escapedRun_eq_nil {text : List Char} (empty : escapedRun text = []) : text = [] := by
  cases text with
  | nil => rfl
  | cons char rest =>
    cases braces : ['}', '}'].isPrefixOf (char :: rest) with
    | true =>
      obtain ⟨tail, equal⟩ := List.isPrefixOf_iff_prefix.mp braces
      rw [← equal] at empty
      exact absurd empty (by simp [escapedRun_braces])
    | false =>
      rw [escapedRun_plain braces] at empty
      cases empty

/-- An escaped curly tag ends with the first two closing braces, and text goes on behind them. -/
theorem escapedRun_before {text head : List Char} (found : before? ['}', '}'] text = some head) :
    ∃ tail, text = head ++ ['}', '}'] ++ tail ∧
      escapedRun text = head ++ ['}', '}'] ++ textRun tail := by
  induction text generalizing head with
  | nil => cases found
  | cons char rest inductionHypothesis =>
    rw [before?] at found
    split at found
    · next starts =>
      cases found
      obtain ⟨tail, equal⟩ := List.isPrefixOf_iff_prefix.mp starts
      rw [← equal]
      exact ⟨tail, rfl, escapedRun_braces tail⟩
    · next plain =>
      obtain ⟨inner, foundInner, rfl⟩ := Option.map_eq_some_iff.mp found
      obtain ⟨tail, equal, run⟩ := inductionHypothesis foundInner
      exact ⟨tail, congrArg (char :: ·) equal,
        (escapedRun_plain (Bool.eq_false_iff.mpr plain)).trans (congrArg (char :: ·) run)⟩

/-- Without closing braces, everything is inside the escaped curly tag. -/
theorem escapedRun_unended {text : List Char} (absent : before? ['}', '}'] text = none) :
    escapedRun text = text := by
  induction text with
  | nil => rw [escapedRun]
  | cons char rest inductionHypothesis =>
    rw [before?] at absent
    split at absent
    · cases absent
    · next plain =>
      rw [escapedRun_plain (Bool.eq_false_iff.mpr plain),
        inductionHypothesis (Option.map_eq_none_iff.mp absent)]

/-- From inside a run, `other` behind it shows nothing that `back` behind it does not show. -/
structure Quieter (back other : List Char) : Prop where
  ends : EndsRun other
  empty : back = [] → other = []
  escape : ∀ char run, ['\\', '{', '{'].isPrefixOf (char :: (run ++ back)) = false →
    ['\\', '{', '{'].isPrefixOf (char :: (run ++ other)) = false
  braces : ∀ char run, ['}', '}'].isPrefixOf (char :: (run ++ back)) = false →
    ['}', '}'].isPrefixOf (char :: (run ++ other)) = false
  goesOn : ∀ char run, endsText (char :: (run ++ back)) = false →
    endsText (char :: (run ++ other)) = false

theorem Alike.quieter {back other : List Char} (alike : Alike back other) (ends : EndsRun other) :
    Quieter back other where
  ends := ends
  empty isEnd := by
    rcases alike with ⟨-, rfl⟩ | ⟨first, second, rfl, rfl⟩ | ⟨first, second, rfl, rfl⟩
    · rfl
    · cases isEnd
    · cases isEnd
  escape char run plain := by rwa [← alike.isPrefixOf (by decide) (.inr (by decide))]
  braces char run plain := by rwa [← alike.isPrefixOf (by decide) (.inr (by decide))]
  goesOn char run plain := by rwa [← alike.endsText]

/-- The end of the input shows nothing at all. -/
theorem quieter_nil (back : List Char) : Quieter back [] where
  ends := .inl rfl
  empty _ := rfl
  escape char run plain := by
    refine Bool.eq_false_iff.mpr fun found => Bool.eq_false_iff.mp plain ?_
    rw [List.append_nil] at found
    exact isPrefixOf_longer found back
  braces char run plain := by
    refine Bool.eq_false_iff.mpr fun found => Bool.eq_false_iff.mp plain ?_
    rw [List.append_nil] at found
    exact isPrefixOf_longer found back
  goesOn char run plain := by
    refine Bool.eq_false_iff.mpr fun found => Bool.eq_false_iff.mp plain ?_
    rw [List.append_nil] at found
    exact endsText_append found back

/-- A token that goes on without an angle bracket is over before one. -/
theorem isPrefixOf_of_bracket {token run rest : List Char} (only : '<' ∉ token)
    (found : token.isPrefixOf (run ++ '<' :: rest) = true) (back : List Char) :
    token.isPrefixOf (run ++ back) = true := by
  induction token generalizing run with
  | nil => rfl
  | cons char token inductionHypothesis =>
    rw [List.mem_cons, not_or] at only
    obtain ⟨notBracket, further⟩ := only
    cases run with
    | nil =>
      rw [List.nil_append, List.isPrefixOf, Bool.and_eq_true, beq_iff_eq] at found
      exact absurd found.1.symm notBracket
    | cons first run =>
      rw [List.cons_append, List.isPrefixOf, Bool.and_eq_true] at found ⊢
      exact ⟨found.1, inductionHypothesis further found.2⟩

theorem isPrefixOf_before_bracket {token : List Char} (only : '<' ∉ token.tail) {char : Char}
    {run back : List Char} (absent : token.isPrefixOf (char :: (run ++ back)) = false)
    (rest : List Char) : token.isPrefixOf (char :: (run ++ '<' :: rest)) = false := by
  refine Bool.eq_false_iff.mpr fun found => Bool.eq_false_iff.mp absent ?_
  cases token with
  | nil => rfl
  | cons head token =>
    rw [List.isPrefixOf, Bool.and_eq_true] at found ⊢
    exact ⟨found.1, isPrefixOf_of_bracket only found.2 back⟩

/-- An angle bracket shows no more than anything else that follows. -/
theorem quieter_bracket {back rest : List Char} (nonempty : back ≠ [])
    (ends : EndsRun ('<' :: rest)) : Quieter back ('<' :: rest) where
  ends := ends
  empty isEnd := absurd isEnd nonempty
  escape char run plain := isPrefixOf_before_bracket (by decide) plain rest
  braces char run plain := isPrefixOf_before_bracket (by decide) plain rest
  goesOn char run plain := by
    simp only [endsText, Bool.or_eq_false_iff] at plain ⊢
    obtain ⟨⟨⟨curly, comment⟩, closing⟩, element⟩ := plain
    refine ⟨⟨⟨isPrefixOf_before_bracket (by decide) curly rest,
      isPrefixOf_before_bracket (by decide) comment rest⟩,
      isPrefixOf_before_bracket (by decide) closing rest⟩, ?_⟩
    cases run with
    | nil => by_cases bracket : char = '<' <;> simp [startsElement, bracket, isTagStart]
    | cons first run =>
      by_cases bracket : char = '<'
      · subst bracket
        exact element
      · simp [startsElement, bracket]

/-- A run of text stays one in front of any text that shows no more than the one it ended at. The
two kinds of run call each other, so both are shown at once, by induction on the length of the
run. -/
theorem runs_again {back other : List Char} (quieter : Quieter back other) :
    ∀ (size : Nat) (run : List Char), run.length ≤ size →
    (textRun (run ++ back) = run → textRun (run ++ other) = run) ∧
      (escapedRun (run ++ back) = run → escapedRun (run ++ other) = run) := by
  have empty : (textRun back = [] → textRun other = []) ∧
      (escapedRun back = [] → escapedRun other = []) := by
    refine ⟨fun _ => textRun_of_endsRun quieter.ends, fun isEmpty => ?_⟩
    rw [quieter.empty (escapedRun_eq_nil isEmpty), escapedRun]
  intro size
  induction size with
  | zero =>
    intro run short
    obtain rfl := List.eq_nil_of_length_eq_zero (Nat.le_zero.mp short)
    exact empty
  | succ size inductionHypothesis =>
    intro run short
    cases run with
    | nil => exact empty
    | cons char run =>
      rw [List.length_cons] at short
      rw [List.cons_append, List.cons_append]
      constructor
      · intro isRun
        cases escape : ['\\', '{', '{'].isPrefixOf (char :: (run ++ back)) with
        | true =>
          obtain ⟨tail, equal⟩ := List.isPrefixOf_iff_prefix.mp escape
          rw [← equal, List.cons_append, List.cons_append, List.cons_append, List.nil_append,
            textRun_escape] at isRun
          match run, isRun, equal, short with
          | first :: second :: run, isRun, equal, short =>
            simp only [List.cons_append, List.nil_append, List.cons.injEq] at isRun equal
            obtain ⟨rfl, rfl, rfl, isRun⟩ := isRun
            obtain ⟨-, -, -, rfl⟩ := equal
            rw [List.length_cons, List.length_cons] at short
            rw [List.cons_append, List.cons_append, textRun_escape,
              (inductionHypothesis run (by omega)).2 isRun]
        | false =>
          rw [textRun_plain escape] at isRun
          rw [textRun_plain (quieter.escape char run escape)]
          split at isRun
          · cases isRun
          · next goesOn =>
            rw [quieter.goesOn char run (Bool.eq_false_iff.mpr goesOn), if_neg Bool.false_ne_true,
              (inductionHypothesis run (by omega)).1 (List.cons.inj isRun).2]
      · intro isRun
        cases braces : ['}', '}'].isPrefixOf (char :: (run ++ back)) with
        | true =>
          obtain ⟨tail, equal⟩ := List.isPrefixOf_iff_prefix.mp braces
          rw [← equal, List.cons_append, List.cons_append, List.nil_append, escapedRun_braces] at isRun
          match run, isRun, equal, short with
          | first :: run, isRun, equal, short =>
            simp only [List.cons_append, List.nil_append, List.cons.injEq] at isRun equal
            obtain ⟨rfl, rfl, isRun⟩ := isRun
            obtain ⟨-, -, rfl⟩ := equal
            rw [List.length_cons] at short
            rw [List.cons_append, escapedRun_braces, (inductionHypothesis run (by omega)).1 isRun]
        | false =>
          rw [escapedRun_plain braces] at isRun
          rw [escapedRun_plain (quieter.braces char run braces),
            (inductionHypothesis run (by omega)).2 (List.cons.inj isRun).2]

/-- The text is a run wherever what follows ends runs and begins with `next`. -/
def IsRun (next : Option Char) (run : List Char) : Prop :=
  ∀ rest, EndsRun rest → rest.head? = next → textRun (run ++ rest) = run

theorem isRun_of_textRun {run rest : List Char} (isRun : textRun (run ++ rest) = run)
    (ends : EndsRun rest) : IsRun rest.head? run := by
  intro other endsOther same
  have alike := alike_of_head? ends endsOther same.symm
  exact (runs_again (alike.quieter endsOther) run.length run (Nat.le_refl _)).1 isRun

/-- A run is a run on its own. -/
theorem IsRun.alone {next : Option Char} {run back : List Char} (isRun : IsRun next run)
    (ends : EndsRun back) (follows : back.head? = next) : IsRun none run := by
  have alone := (runs_again (quieter_nil back) run.length run (Nat.le_refl _)).1
    (isRun back ends follows)
  exact isRun_of_textRun alone (.inl rfl)

/-- A run in front of a curly tag is a run in front of an angle bracket. -/
theorem IsRun.bracket {run : List Char} (isRun : IsRun (some '{') run) : IsRun (some '<') run := by
  intro other ends head
  obtain ⟨rest, rfl⟩ := List.head?_eq_some_iff.mp head
  have quieter := quieter_bracket (List.cons_ne_nil '{' ['{']) ends
  exact (runs_again quieter run.length run (Nat.le_refl _)).1 (isRun ['{', '{'] (.inr rfl) rfl)

/-- A new line in front of a run belongs to the run. -/
theorem IsRun.newLine {next : Option Char} {run : List Char} (isRun : IsRun next run) :
    IsRun next ('\n' :: run) := by
  intro rest ends head
  have goesOn : endsText ('\n' :: (run ++ rest)) = false := rfl
  rw [List.cons_append, textRun_plain rfl, goesOn, if_neg Bool.false_ne_true, isRun rest ends head]

theorem isRun_nil (next : Option Char) : IsRun next [] :=
  fun _ ends _ => textRun_of_endsRun ends

/-- Every text is a run of text and something that ends runs. -/
theorem exists_runs : ∀ (size : Nat) (text : List Char), text.length ≤ size →
    (∃ rest, text = textRun text ++ rest ∧ EndsRun rest) ∧
      ∃ rest, text = escapedRun text ++ rest ∧ EndsRun rest := by
  intro size
  induction size with
  | zero =>
    intro text short
    obtain rfl := List.eq_nil_of_length_eq_zero (Nat.le_zero.mp short)
    exact ⟨⟨[], by rw [textRun]; rfl, .inl rfl⟩, ⟨[], by rw [escapedRun]; rfl, .inl rfl⟩⟩
  | succ size inductionHypothesis =>
    intro text short
    cases text with
    | nil => exact ⟨⟨[], by rw [textRun]; rfl, .inl rfl⟩, ⟨[], by rw [escapedRun]; rfl, .inl rfl⟩⟩
    | cons char tail =>
      rw [List.length_cons] at short
      constructor
      · cases escape : ['\\', '{', '{'].isPrefixOf (char :: tail) with
        | true =>
          obtain ⟨inside, equal⟩ := List.isPrefixOf_iff_prefix.mp escape
          obtain ⟨rfl, rfl⟩ := List.cons.inj equal
          have shorter : inside.length + 2 + 1 ≤ size + 1 := short
          obtain ⟨rest, insideEq, ends⟩ := (inductionHypothesis inside (by omega)).2
          refine ⟨rest, ?_, ends⟩
          show '\\' :: '{' :: '{' :: inside = textRun ('\\' :: '{' :: '{' :: inside) ++ rest
          rw [textRun_escape, List.cons_append, List.cons_append, List.cons_append, ← insideEq]
        | false =>
          rw [textRun_plain escape]
          split
          · next ends => exact ⟨char :: tail, rfl, .inr ends⟩
          · obtain ⟨rest, tailEq, ends⟩ := (inductionHypothesis tail (by omega)).1
            exact ⟨rest, by rw [List.cons_append, ← tailEq], ends⟩
      · cases braces : ['}', '}'].isPrefixOf (char :: tail) with
        | true =>
          obtain ⟨inside, equal⟩ := List.isPrefixOf_iff_prefix.mp braces
          obtain ⟨rfl, rfl⟩ := List.cons.inj equal
          have shorter : inside.length + 1 + 1 ≤ size + 1 := short
          obtain ⟨rest, insideEq, ends⟩ := (inductionHypothesis inside (by omega)).1
          refine ⟨rest, ?_, ends⟩
          show '}' :: '}' :: inside = escapedRun ('}' :: '}' :: inside) ++ rest
          rw [escapedRun_braces, List.cons_append, List.cons_append, ← insideEq]
        | false =>
          obtain ⟨rest, tailEq, ends⟩ := (inductionHypothesis tail (by omega)).2
          exact ⟨rest, by rw [escapedRun_plain braces, List.cons_append, ← tailEq], ends⟩

theorem exists_textRun (text : List Char) :
    ∃ rest, text = textRun text ++ rest ∧ EndsRun rest :=
  (exists_runs text.length text (Nat.le_refl _)).1

/-- Where neither content stops nor text ends, some text stands. -/
theorem textRun_ne_nil {text : List Char} (goesOn : stop? text = none)
    (plain : endsText text = false) : textRun text ≠ [] := by
  obtain ⟨rest, equal, ends⟩ := exists_textRun text
  intro empty
  rw [empty, List.nil_append] at equal
  rcases ends with rfl | endsText
  · rw [equal] at goesOn
    cases goesOn
  · rw [equal, endsText] at plain
    cases plain

end TagMigration.Reader
