/-
Arguments are read up to the closer of their call and no further. They are read one after the other,
and each step looks ahead only as far as the closer that is still to come. So one lemma for each
kind of argument says that it can be put in front of arguments that close.
-/
import TagMigration.Proofs.Reading.Word

namespace TagMigration

/-! ### Expressions that stand in a text -/

/-- The expression was read from a part of `text`, which begins at `offset`. -/
def Expression.Within (offset : Nat) (text : List Char) (expression : Expression) : Prop :=
  ∃ front inner back, text = front ++ (inner ++ back) ∧ expression.span =
    some ⟨offset + byteSize front, offset + byteSize front + byteSize inner⟩

theorem Expression.within_self {offset : Nat} {text : List Char} {expression : Expression}
    (span : expression.span = some ⟨offset, offset + byteSize text⟩) :
    expression.Within offset text :=
  ⟨[], text, [], by simp, by simpa using span⟩

theorem Expression.Within.append_left {offset : Nat} {text : List Char} {expression : Expression}
    (front : List Char) (within : expression.Within (offset + byteSize front) text) :
    expression.Within offset (front ++ text) := by
  obtain ⟨before, inner, back, rfl, span⟩ := within
  exact ⟨front ++ before, inner, back, by simp, by rw [span, byteSize_append, Nat.add_assoc]⟩

theorem Expression.Within.append_right {offset : Nat} {text : List Char} {expression : Expression}
    (within : expression.Within offset text) (back : List Char) :
    expression.Within offset (text ++ back) := by
  obtain ⟨front, inner, after, rfl, span⟩ := within
  exact ⟨front, inner, after ++ back, by simp, span⟩

/-- A closer is neither a name nor blank. -/
theorem Closer.exists_stop (closer : Closer) :
    ∃ char tail, closer.chars = char :: tail ∧ Reader.isNameChar char = false ∧ isBlank char = false := by
  cases closer with
  | braces => exact ⟨'}', ['}'], rfl, by decide, by decide⟩
  | tripleBraces => exact ⟨'}', ['}', '}'], rfl, by decide, by decide⟩
  | parenthesis => exact ⟨')', [], rfl, by decide, by decide⟩

namespace Reader

/-! ### How arguments are read -/

/-- How the arguments of a call are read: behind blanks, one after the other, up to the closer. -/
inductive GivenAs (nested : Cursor → Except Fault (Expression × Cursor)) (closer : Closer) :
    Bool → Cursor → Arguments → Cursor → Prop where
  | closed {sawNamed : Bool} {cursor after : Cursor} {trim : Bool}
    (found : closer? closer cursor.skipBlanks = some (trim, after)) :
    GivenAs nested closer sawNamed cursor ⟨[], [], [], trim⟩ after
  | params {sawNamed : Bool} {cursor between after : Cursor} {intro : Nat} {names : List String}
    {given : Arguments} (introduced : paramsIntro? cursor.skipBlanks.rest = some intro)
    (reads : blockParams (cursor.skipBlanks.skip intro) = .ok (names, between))
    (more : GivenAs nested closer sawNamed between given after) :
    GivenAs nested closer sawNamed cursor
      { given with params := if given.params.isEmpty then names else given.params } after
  | named {sawNamed : Bool} {cursor between after : Cursor} {key : List Char} {width : Nat}
    {value : Expression} {given : Arguments}
    (keyed : namedKey? cursor.skipBlanks.rest = some (key, width))
    (reads : nested (cursor.skipBlanks.skip width).skipBlanks = .ok (value, between))
    (more : GivenAs nested closer true between given after) :
    GivenAs nested closer sawNamed cursor { given with
      named := ⟨String.ofList key, value, some (cursor.skipBlanks.spanTo between)⟩ ::
        given.named } after
  | positional {cursor between after : Cursor} {value : Expression} {given : Arguments}
    (reads : nested cursor.skipBlanks = .ok (value, between))
    (more : GivenAs nested closer false between given after) :
    GivenAs nested closer false cursor { given with positional := value :: given.positional } after

theorem arguments_givenAs {nested : Cursor → Except Fault (Expression × Cursor)} {closer : Closer}
    {begin : Nat} : ∀ {size : Nat} {sawNamed : Bool} {cursor : Cursor} {given : Arguments}
      {after : Cursor},
    arguments nested closer begin size sawNamed cursor = .ok (given, after) →
      GivenAs nested closer sawNamed cursor given after
  | 0, _, _, _, _, success => by cases success
  | size + 1, sawNamed, cursor, given, after, success => by
    rw [arguments] at success
    simp only at success
    split at success
    · cases success
    · split at success
      · next found =>
        cases success
        exact .closed found
      · split at success
        · next introduced =>
          obtain ⟨⟨names, between⟩, readNames, success⟩ := bind_eq_ok success
          obtain ⟨⟨more, last⟩, readMore, success⟩ := bind_eq_ok success
          cases success
          exact .params introduced readNames (arguments_givenAs readMore)
        · split at success
          · next keyed =>
            obtain ⟨⟨value, between⟩, readValue, success⟩ := bind_eq_ok success
            obtain ⟨⟨more, last⟩, readMore, success⟩ := bind_eq_ok success
            cases success
            exact .named keyed readValue (arguments_givenAs readMore)
          · cases sawNamed with
            | true => cases success
            | false =>
              obtain ⟨⟨value, between⟩, readValue, success⟩ := bind_eq_ok success
              obtain ⟨⟨more, last⟩, readMore, success⟩ := bind_eq_ok success
              cases success
              exact .positional readValue (arguments_givenAs readMore)

/-- How a call is read: a callee behind blanks, then its arguments. -/
theorem callParts_eq_ok {nested : Cursor → Except Fault (Expression × Cursor)} {closer : Closer}
    {begin : Nat} {cursor after : Cursor} {parts : CallParts}
    (success : callParts nested closer begin cursor = .ok (parts, after)) :
    ∃ callee between given, nested cursor.skipBlanks = .ok (callee, between) ∧
      GivenAs nested closer false between given after ∧
      parts = ⟨⟨callee, given.positional, given.named⟩, given.params, given.trimAfter⟩ := by
  obtain ⟨⟨callee, between⟩, readCallee, success⟩ := bind_eq_ok success
  obtain ⟨⟨given, last⟩, readGiven, success⟩ := bind_eq_ok success
  cases success
  exact ⟨callee, between, given, readCallee, arguments_givenAs readGiven, rfl⟩

/-! ### Arguments up to a closer -/

/-- Read with `nested` for nested expressions of at most `bound` characters, the text `inside` in
front of the closer gives the arguments `given`, whatever follows; their values stand in it. -/
structure Closes (nested : Cursor → Except Fault (Expression × Cursor)) (closer : Closer)
    (bound : Nat) (sawNamed : Bool) (offset : Nat) (inside : List Char) (given : Arguments) :
    Prop where
  values : ∀ argument ∈ given.named, argument.value.Within offset inside
  reads : ∀ size begin rest, inside.length < size → inside.length ≤ bound →
    arguments nested closer begin size sawNamed ⟨offset, inside ++ (closer.chars ++ rest)⟩ =
      .ok (given, ⟨offset + byteSize inside + byteSize closer.chars, rest⟩)

section Arguments

variable {nested : Cursor → Except Fault (Expression × Cursor)} {closer : Closer} {bound : Nat}
  {sawNamed : Bool} {offset : Nat} {inside : List Char} {given : Arguments}

/-- Blanks in front of arguments are skipped. -/
theorem arguments_blank (begin size : Nat) {blanks text : List Char}
    (blank : ∀ char ∈ blanks, isBlank char = true) (halts : Halts isBlank text) :
    arguments nested closer begin (size + 1) sawNamed ⟨offset, blanks ++ text⟩ =
      arguments nested closer begin (size + 1) sawNamed ⟨offset + byteSize blanks, text⟩ := by
  rw [arguments, arguments, Cursor.skipBlanks_append offset blank halts,
    Cursor.skipBlanks_of_halts _ halts]

/-- One step of the reader of arguments in front of something that is not blank. -/
theorem arguments_succ (begin size : Nat) {text : List Char} (nonempty : text ≠ [])
    (halts : Halts isBlank text) :
    arguments nested closer begin (size + 1) sawNamed ⟨offset, text⟩ =
      match closer? closer ⟨offset, text⟩ with
      | some (trimAfter, after) => .ok (⟨[], [], [], trimAfter⟩, after)
      | none =>
        match paramsIntro? text with
        | some intro => do
          let (params, after) ← blockParams ((⟨offset, text⟩ : Cursor).skip intro)
          let (more, after) ← arguments nested closer begin size sawNamed after
          .ok ({ more with params := if more.params.isEmpty then params else more.params }, after)
        | none =>
          match namedKey? text with
          | some (key, width) => do
            let (value, after) ← nested ((⟨offset, text⟩ : Cursor).skip width).skipBlanks
            let argument :=
              ⟨String.ofList key, value, some ((⟨offset, text⟩ : Cursor).spanTo after)⟩
            let (more, after) ← arguments nested closer begin size true after
            .ok ({ more with named := argument :: more.named }, after)
          | none =>
            if sawNamed then fault offset .positionalAfterNamed
            else (do
              let (argument, after) ← nested ⟨offset, text⟩
              let (more, after) ← arguments nested closer begin size false after
              .ok ({ more with positional := argument :: more.positional }, after)) := by
  have goesOn : text.isEmpty = false := by
    cases text with
    | nil => exact absurd rfl nonempty
    | cons char rest => rfl
  rw [arguments]
  simp only [Cursor.skipBlanks_of_halts offset halts, goesOn]
  rfl

theorem Closes.finish (trim : Bool) (takes : trim = true → closer ≠ .parenthesis) :
    Closes nested closer bound sawNamed offset (tilde trim) ⟨[], [], [], trim⟩ := by
  refine ⟨by simp, fun size begin rest enough _ => ?_⟩
  obtain ⟨size, rfl⟩ := Nat.exists_eq_add_one_of_ne_zero (Nat.ne_of_gt (Nat.zero_lt_of_lt enough))
  obtain ⟨char, tail, chars, -, notBlank⟩ := closer.exists_stop
  have halts : Halts isBlank (tilde trim ++ (closer.chars ++ rest)) := by
    cases trim with
    | true => exact halts_cons.mpr (by decide)
    | false => rw [chars]; exact halts_cons.mpr notBlank
  have nonempty : tilde trim ++ (closer.chars ++ rest) ≠ [] := by simp [chars]
  rw [arguments_succ begin size nonempty halts, closer?_tilde closer offset rest trim takes]
  simp only [byteSize_append, Nat.add_assoc]

theorem Closes.blank {blanks : List Char} (blank : ∀ char ∈ blanks, isBlank char = true)
    (halts : Halts isBlank inside)
    (more : Closes nested closer bound sawNamed (offset + byteSize blanks) inside given) :
    Closes nested closer bound sawNamed offset (blanks ++ inside) given := by
  refine ⟨fun argument member => (more.values argument member).append_left blanks,
    fun size begin rest enough short => ?_⟩
  rw [List.length_append] at enough short
  have again := more.reads size begin rest (by omega) (by omega)
  obtain ⟨size, rfl⟩ := Nat.exists_eq_add_one_of_ne_zero (Nat.ne_of_gt (Nat.zero_lt_of_lt enough))
  obtain ⟨char, tail, chars, -, notBlank⟩ := closer.exists_stop
  have haltsText : Halts isBlank (inside ++ (closer.chars ++ rest)) := by
    by_cases empty : inside = []
    · rw [empty, chars]
      exact halts_cons.mpr notBlank
    · exact (halts_append empty).mpr halts
  rw [List.append_assoc, arguments_blank begin size blank haltsText, again, byteSize_append,
    Nat.add_assoc offset]

/-- A positional argument in front of arguments that close. What tells it from the other kinds of
argument is settled before the closer is over, so it is asked for one text that follows only. -/
theorem Closes.positional {used : List Char} {value : Expression} (nonempty : used ≠ [])
    (halts : Halts isBlank used) {back : List Char}
    (unclosed : closer? closer ⟨offset, used ++ (inside ++ (closer.chars ++ back))⟩ = none)
    (noParams : paramsIntro? (used ++ (inside ++ (closer.chars ++ back))) = none)
    (noKey : namedKey? (used ++ (inside ++ (closer.chars ++ back))) = none)
    (reads : used.length ≤ bound → ∀ rest,
      nested ⟨offset, used ++ (inside ++ (closer.chars ++ rest))⟩ =
        .ok (value, ⟨offset + byteSize used, inside ++ (closer.chars ++ rest)⟩))
    (more : Closes nested closer bound false (offset + byteSize used) inside given) :
    Closes nested closer bound false offset (used ++ inside)
      { given with positional := value :: given.positional } := by
  refine ⟨fun argument member => (more.values argument member).append_left used,
    fun size begin rest enough short => ?_⟩
  have long : 0 < used.length := List.length_pos_iff.mpr nonempty
  rw [List.length_append] at enough short
  obtain ⟨size, rfl⟩ := Nat.exists_eq_add_one_of_ne_zero (Nat.ne_of_gt (Nat.zero_lt_of_lt enough))
  obtain ⟨char, tail, chars, notName, notBlank⟩ := closer.exists_stop
  have again := more.reads size begin rest (by omega) (by omega)
  have unclosedHere : closer? closer ⟨offset, used ++ (inside ++ (closer.chars ++ rest))⟩ = none := by
    rw [← List.append_assoc] at unclosed ⊢
    exact closer?_eq_none_append (by simp [nonempty]) unclosed
  have upTo (rest : List Char) : used ++ (inside ++ (closer.chars ++ rest)) =
      (used ++ inside) ++ char :: (tail ++ rest) := by
    rw [chars, List.append_assoc, List.cons_append]
  have noParamsHere : paramsIntro? (used ++ (inside ++ (closer.chars ++ rest))) = none := by
    rw [← noParams, upTo, upTo, paramsIntro?_stop (notLetter_of_isNameChar_eq_false notName) notBlank]
  have noKeyHere : namedKey? (used ++ (inside ++ (closer.chars ++ rest))) = none := by
    rw [← noKey, upTo, upTo, namedKey?_stop notName notBlank]
  rw [List.append_assoc, arguments_succ begin size (by simp [nonempty])
    ((halts_append nonempty).mpr halts), unclosedHere, noParamsHere, noKeyHere]
  simp only [reads (by omega) rest]
  show (arguments nested closer begin size false _ >>= _) = _
  rw [again, byteSize_append, ← Nat.add_assoc]
  rfl

/-- A named argument in front of arguments that close. -/
theorem Closes.named {key blanks gap used : List Char} {value : Expression} (someKey : key ≠ [])
    (isKey : ∀ char ∈ key, isNameChar char = true) (blank : ∀ char ∈ blanks, isBlank char = true)
    (isGap : ∀ char ∈ gap, isBlank char = true) (nonempty : used ≠ [])
    (halts : Halts isBlank used) {back : List Char}
    (noParams : paramsIntro? (key ++ (blanks ++ '=' :: back)) = none)
    (reads : used.length ≤ bound → ∀ rest,
      nested ⟨offset + byteSize (key ++ (blanks ++ '=' :: gap)),
          used ++ (inside ++ (closer.chars ++ rest))⟩ =
        .ok (value, ⟨offset + byteSize (key ++ (blanks ++ '=' :: gap)) + byteSize used,
          inside ++ (closer.chars ++ rest)⟩))
    (stands : value.span = some ⟨offset + byteSize (key ++ (blanks ++ '=' :: gap)),
      offset + byteSize (key ++ (blanks ++ '=' :: gap)) + byteSize used⟩)
    (more : Closes nested closer bound true
      (offset + byteSize (key ++ (blanks ++ '=' :: gap)) + byteSize used) inside given) :
    Closes nested closer bound sawNamed offset (key ++ (blanks ++ '=' :: gap) ++ (used ++ inside))
      { given with named := ⟨String.ofList key, value, some ⟨offset,
        offset + byteSize (key ++ (blanks ++ '=' :: gap)) + byteSize used⟩⟩ :: given.named } := by
  refine ⟨fun argument member => Expression.Within.append_left _ ?_,
    fun size begin rest enough short => ?_⟩
  · rcases List.mem_cons.mp member with rfl | member
    · exact (Expression.within_self stands).append_right inside
    · exact (more.values argument member).append_left used
  · have long : 0 < used.length := List.length_pos_iff.mpr nonempty
    simp only [List.length_append] at enough short
    obtain ⟨size, rfl⟩ :=
      Nat.exists_eq_add_one_of_ne_zero (Nat.ne_of_gt (Nat.zero_lt_of_lt enough))
    have again := more.reads size begin rest (by omega) (by omega)
    have lead : key ++ (blanks ++ '=' :: gap) ++ (used ++ inside) ++ (closer.chars ++ rest) =
        key ++ (blanks ++ '=' :: (gap ++ (used ++ (inside ++ (closer.chars ++ rest))))) := by
      simp
    have upTo : key ++ (blanks ++ '=' :: (gap ++ (used ++ (inside ++ (closer.chars ++ rest))))) =
        key ++ (blanks ++ ['=']) ++ (gap ++ (used ++ (inside ++ (closer.chars ++ rest)))) := by
      simp
    have noParamsHere : paramsIntro?
        (key ++ (blanks ++ '=' :: (gap ++ (used ++ (inside ++ (closer.chars ++ rest)))))) =
        none := by
      rw [← noParams, ← List.append_assoc, ← List.append_assoc key]
      exact paramsIntro?_stop (by decide) (by decide) _ _
    obtain ⟨first, letters, equal⟩ := List.exists_cons_of_ne_nil someKey
    have firstNamed : isNameChar first = true := isKey first (by rw [equal]; exact List.mem_cons_self)
    have unclosed : closer? closer ⟨offset,
        key ++ (blanks ++ '=' :: (gap ++ (used ++ (inside ++ (closer.chars ++ rest)))))⟩ = none := by
      rw [equal, List.cons_append]
      exact closer?_of_isNameChar closer offset firstNamed _
    have haltsKey : Halts isBlank key := by
      rw [equal]
      exact halts_cons.mpr (isBlank_of_isNameChar firstNamed)
    have place : offset + byteSize (key ++ (blanks ++ ['='])) + byteSize gap =
        offset + byteSize (key ++ (blanks ++ '=' :: gap)) := by
      simp only [byteSize_append, byteSize_cons, byteSize_nil]
      omega
    rw [lead, arguments_succ begin size (by simp [someKey]) ((halts_append someKey).mpr haltsKey),
      unclosed, noParamsHere, namedKey?_append someKey isKey blank]
    simp only
    rw [upTo, Cursor.skip_append, Cursor.skipBlanks_append _ isGap
      ((halts_append nonempty).mpr halts), place, reads (by omega) rest]
    show (arguments nested closer begin size true _ >>= _) = _
    rw [again, byteSize_append _ (used ++ inside), byteSize_append used]
    simp only [← Nat.add_assoc]
    rfl

/-- Block params in front of arguments that close; later ones count. -/
theorem Closes.params {letters words : List Char} {names : List String}
    (intro : ∀ rest, paramsIntro? ('a' :: letters ++ rest) = some ('a' :: letters).length)
    (takes : Takes blockParams (offset + byteSize ('a' :: letters)) words names)
    (more : Closes nested closer bound sawNamed
      (offset + byteSize ('a' :: letters) + byteSize words) inside given) :
    Closes nested closer bound sawNamed offset ('a' :: letters ++ (words ++ inside))
      { given with params := if given.params.isEmpty then names else given.params } := by
  refine ⟨fun argument member => ?_, fun size begin rest enough short => ?_⟩
  · exact ((more.values argument member).append_left words).append_left _
  · simp only [List.length_append, List.length_cons] at enough short
    obtain ⟨size, rfl⟩ :=
      Nat.exists_eq_add_one_of_ne_zero (Nat.ne_of_gt (Nat.zero_lt_of_lt enough))
    have again := more.reads size begin rest (by omega) (by omega)
    have upTo : 'a' :: letters ++ (words ++ inside) ++ (closer.chars ++ rest) =
        'a' :: letters ++ (words ++ (inside ++ (closer.chars ++ rest))) := by
      simp
    have unclosed : closer? closer ⟨offset,
        'a' :: letters ++ (words ++ (inside ++ (closer.chars ++ rest)))⟩ = none :=
      closer?_of_isNameChar closer offset (by decide) _
    have halts : Halts isBlank ('a' :: letters ++ (words ++ (inside ++ (closer.chars ++ rest)))) :=
      halts_cons.mpr (by decide)
    rw [upTo, arguments_succ begin size (by simp) halts, unclosed, intro]
    simp only
    rw [Cursor.skip_append, takes]
    show (arguments nested closer begin size sawNamed _ >>= _) = _
    rw [again, byteSize_append _ (words ++ inside), byteSize_append words]
    simp only [← Nat.add_assoc]
    rfl

end Arguments

end Reader

end TagMigration
