/-
What is spelled is read, in front of everything that stops content and begins with the right
character. So the reader of content finds exactly the spellings, and the templates that can be read
are the spelled ones.
-/
import TagMigration.Proofs.Reading.Spelled

namespace TagMigration.Reader

/-! ### What is spelled is read -/

/-- The phrase is read from the text in front of everything that stops content and begins with
`next`. -/
def ReadAs (next : Option Char) (offset : Nat) (text : List Char) : Phrase → Prop
  | .content body => ∀ size rest stop, (text ++ rest).length ≤ size → stop? rest = some stop →
      rest.head? = next → contentWithin size ⟨offset, text ++ rest⟩ =
        .ok ((body, stop), ⟨offset + byteSize text, rest⟩)
  | .inverse tags inverse => ∀ size fuel opening program rest, (text ++ rest).length ≤ size →
      text.length ≤ fuel → stop? rest = some .closeTag →
      ∃ stop, stop? (text ++ rest) = some stop ∧
        blockTail (contentWithin size) fuel opening program stop ⟨offset, text ++ rest⟩ =
          .ok (⟨program, inverse, tags.elseTrim, tags.elseSpan⟩, ⟨offset + byteSize text, rest⟩)

/-- One statement, then the rest of the content. -/
theorem contentWithin_cons {size offset : Nat} {text : List Char} {first : Statement}
    {after : Cursor} (goesOn : stop? text = none)
    (read : statement (contentWithin size) ⟨offset, text⟩ = .ok (first, after)) :
    contentWithin (size + 1) ⟨offset, text⟩ = (do
      let ((body, stop), last) ← contentWithin size after
      .ok ((first :: body, stop), last)) := by
  rw [contentWithin]
  simp only [goesOn, read]
  rfl

theorem statement_text (nested : ContentReader) (offset : Nat) {run rest : List Char}
    (isRun : textRun (run ++ rest) = run) (nonempty : run ≠ []) :
    stop? (run ++ rest) = none ∧ statement nested ⟨offset, run ++ rest⟩ =
      .ok (.text ⟨String.ofList run, some ⟨offset, offset + byteSize run⟩⟩,
        ⟨offset + byteSize run, rest⟩) := by
  have inside : ¬ EndsRun (run ++ rest) := fun ends =>
    nonempty (isRun.symm.trans (textRun_of_endsRun ends))
  have plain : endsText (run ++ rest) = false := Bool.eq_false_iff.mpr fun ends => inside (.inr ends)
  constructor
  · cases stops : stop? (run ++ rest) with
    | none => rfl
    | some stop => exact absurd (endsRun_of_stop? stops) inside
  · simp only [endsText, Bool.or_eq_false_iff] at plain
    obtain ⟨⟨⟨noCurly, noComment⟩, -⟩, noElement⟩ := plain
    simp only [statement, Cursor.startsWith, noCurly, noComment, noElement, Reader.text, isRun,
      Cursor.skip_append]
    rfl

theorem stop?_of_elementEnd {tag : String} {offset : Nat} {text : List Char} {after : Cursor}
    (success : elementEnd tag ⟨offset, text⟩ = .ok ((), after)) :
    stop? text = some .closingTag ∧ endTag tag ⟨offset, text⟩ = .ok ((), after) := by
  unfold elementEnd at success
  split at success
  · next stops => exact ⟨stops, success⟩
  · cases success

theorem stop?_of_blockEnd {name : String} {offset : Nat} {text : List Char} {trim : Trim}
    {after : Cursor} (success : blockEnd name ⟨offset, text⟩ = .ok (trim, after)) :
    stop? text = some .closeTag ∧ blockClose name ⟨offset, text⟩ = .ok (trim, after) := by
  unfold blockEnd at success
  split at success
  · next stops => exact ⟨stops, success⟩
  · cases success

theorem stop?_of_elseTag {offset : Nat} {text : List Char} {trim : Trim} {after : Cursor}
    (success : elseTag ⟨offset, text⟩ = .ok (trim, after)) : stop? text = some .elseTag := by
  unfold elseTag at success
  split at success
  · next stops => exact stops
  · cases success

theorem stop?_of_elseOpening {offset : Nat} {text : List Char} {opening : BlockOpening}
    {after : Cursor} (success : elseOpening ⟨offset, text⟩ = .ok (opening, after)) :
    stop? text = some .elseTag := by
  unfold elseOpening at success
  split at success
  · next tests => exact tests.1
  · cases success

/-- The program of a block and what follows it, up to the closing tag. -/
theorem blockContent_readAs {offset size fuel : Nat} {inside tail rest : List Char}
    {tags : BlockTags} {program : List Statement} {inverse : Option Program}
    (opening : BlockOpening) (content : ReadAs (some '{') offset inside (.content program))
    (others : ReadAs (some '{') (offset + byteSize inside) tail (.inverse tags inverse))
    (short : (inside ++ (tail ++ rest)).length ≤ size) (enough : tail.length ≤ fuel)
    (stops : stop? rest = some .closeTag) :
    blockContent (contentWithin size) (fuel + 1) opening ⟨offset, inside ++ (tail ++ rest)⟩ =
      .ok (⟨⟨program, opening.parts.params, false⟩, inverse, tags.elseTrim, tags.elseSpan⟩,
        ⟨offset + byteSize inside + byteSize tail, rest⟩) := by
  have shortTail : (tail ++ rest).length ≤ size := by
    rw [List.length_append] at short
    omega
  obtain ⟨stop, stopsTail, reads⟩ :=
    others size fuel opening ⟨program, opening.parts.params, false⟩ rest shortTail enough stops
  have curly : stop = .closeTag ∨ stop = .elseTag :=
    (blockTail_cases stopsTail reads).imp id And.left
  rw [blockContent_succ, content size (tail ++ rest) stop short stopsTail (head?_of_stop? stopsTail curly)]
  exact reads

/-- A statement in front of content. What follows the content matters to a run of text only. -/
theorem ReadAs.cons {next : Option Char} {offset : Nat} {piece rest : List Char}
    {first : Statement} {body : List Statement} (nonempty : piece ≠ [])
    (reads : ∀ size back stop, (piece ++ (rest ++ back)).length ≤ size + 1 →
      stop? back = some stop → back.head? = next → stop? (piece ++ (rest ++ back)) = none ∧
        statement (contentWithin size) ⟨offset, piece ++ (rest ++ back)⟩ =
          .ok (first, ⟨offset + byteSize piece, rest ++ back⟩))
    (more : ReadAs next (offset + byteSize piece) rest (.content body)) :
    ReadAs next offset (piece ++ rest) (.content (first :: body)) := by
  intro size back stop short stops follows
  have long := List.length_pos_iff.mpr nonempty
  rw [List.append_assoc] at short ⊢
  have shortRest : piece.length + (rest ++ back).length ≤ size := by
    rwa [List.length_append] at short
  obtain ⟨size, rfl⟩ := Nat.exists_eq_add_one_of_ne_zero (show size ≠ 0 by omega)
  obtain ⟨goesOn, read⟩ := reads size back stop short stops follows
  rw [contentWithin_cons goesOn read, more size back stop (by omega) stops follows,
    byteSize_append, ← Nat.add_assoc]
  rfl

/-- An element with an end tag, from its parts. -/
theorem statement_readAs_element {offset size : Nat} {opening inside closing : List Char}
    {tag : String} {start : StartTag} {children : List Statement}
    (starts : Takes elementStart offset opening (tag, start))
    (open' : (start.selfClosing || isVoidTag tag) = false)
    (content : ReadAs (some '<') (offset + byteSize opening) inside (.content children))
    (ends : Takes (elementEnd tag) (offset + byteSize (opening ++ inside)) closing ())
    (rest : List Char) (short : (opening ++ inside ++ closing ++ rest).length ≤ size + 1) :
    stop? (opening ++ inside ++ closing ++ rest) = none ∧
      statement (contentWithin size) ⟨offset, opening ++ inside ++ closing ++ rest⟩ =
        .ok (.element (start.closed tag
          ⟨offset, offset + byteSize (opening ++ inside ++ closing)⟩
          ⟨offset, offset + byteSize opening⟩
          ⟨offset + byteSize (opening ++ inside), offset + byteSize (opening ++ inside ++ closing)⟩)
          children, ⟨offset + byteSize (opening ++ inside ++ closing), rest⟩) := by
  have long := List.length_pos_iff.mpr (ne_nil_of_takes starts fun _ => ⟨_, rfl⟩)
  have startsHere := startsElement_of_takes starts (inside ++ (closing ++ rest))
  obtain ⟨stopsHere, readEnd⟩ := stop?_of_elementEnd (ends rest)
  have head : (closing ++ rest).head? = some '<' := by
    obtain ⟨tail, equal⟩ := stop?_eq_closingTag stopsHere
    rw [equal]
    rfl
  have same : opening ++ inside ++ closing ++ rest = opening ++ (inside ++ (closing ++ rest)) := by
    simp
  rw [same] at short ⊢
  rw [List.length_append] at short
  have readHere := content size (closing ++ rest) .closingTag (by omega) stopsHere head
  rw [Nat.add_assoc, ← byteSize_append] at readHere
  refine ⟨stop?_element startsHere, ?_⟩
  rw [statement_element _ startsHere, element_eq _ startsHere, starts]
  show (if (start.selfClosing || isVoidTag tag) = true then _ else _) = _
  rw [if_neg (Bool.eq_false_iff.mp open'), readHere]
  show (endTag tag _ >>= _) = _
  rw [readEnd, Nat.add_assoc, ← byteSize_append]
  rfl

/-- A block, from its parts. -/
theorem statement_readAs_block {offset size : Nat} {start inside tail closing : List Char}
    {opening : BlockOpening} {tags : BlockTags} {closeTrim : Trim} {program : List Statement}
    {inverse : Option Program} (starts : Takes blockStart offset start opening)
    (content : ReadAs (some '{') (offset + byteSize start) inside (.content program))
    (others : ReadAs (some '{') (offset + byteSize (start ++ inside)) tail (.inverse tags inverse))
    (ends : Takes (blockEnd opening.name) (offset + byteSize (start ++ inside ++ tail)) closing
      closeTrim) (rest : List Char)
    (short : (start ++ inside ++ tail ++ closing ++ rest).length ≤ size + 1) :
    stop? (start ++ inside ++ tail ++ closing ++ rest) = none ∧
      statement (contentWithin size) ⟨offset, start ++ inside ++ tail ++ closing ++ rest⟩ =
        .ok (.block (opening.closed tags.elseTrim tags.elseSpan closeTrim
          ⟨offset, offset + byteSize (start ++ inside ++ tail ++ closing)⟩
          ⟨offset + byteSize (start ++ inside ++ tail),
            offset + byteSize (start ++ inside ++ tail ++ closing)⟩)
          ⟨program, opening.parts.params, false⟩ inverse,
          ⟨offset + byteSize (start ++ inside ++ tail ++ closing), rest⟩) := by
  have startsHere := starts (inside ++ (tail ++ (closing ++ rest)))
  obtain ⟨stopsHere, readEnd⟩ := stop?_of_blockEnd (ends rest)
  obtain ⟨present, letters, equal, -⟩ := blockStart_eq_ok startsHere
  have long := List.length_pos_iff.mpr (ne_nil_of_takes starts fun _ => ⟨_, rfl⟩)
  have longEnd := List.length_pos_iff.mpr (ne_nil_of_takes ends fun _ => ⟨_, rfl⟩)
  have same : start ++ inside ++ tail ++ closing ++ rest =
      start ++ (inside ++ (tail ++ (closing ++ rest))) := by
    simp
  rw [same] at short ⊢
  rw [List.length_append] at short
  obtain ⟨fuel, fuelEq, enough⟩ : ∃ fuel,
      (inside ++ (tail ++ (closing ++ rest))).length = fuel + 1 ∧ tail.length ≤ fuel := by
    simp only [List.length_append]
    exact ⟨inside.length + (tail.length + (closing.length - 1 + rest.length)), by omega, by omega⟩
  rw [byteSize_append start, ← Nat.add_assoc] at others
  have readHere := blockContent_readAs opening content others (show _ ≤ size by omega) enough stopsHere
  rw [Nat.add_assoc offset, ← byteSize_append, Nat.add_assoc offset, ← byteSize_append] at readHere
  have isCurly (nested : ContentReader) :
      statement nested ⟨offset, start ++ (inside ++ (tail ++ (closing ++ rest)))⟩ =
        curly nested ⟨offset, start ++ (inside ++ (tail ++ (closing ++ rest)))⟩ := by
    rw [equal]
    rfl
  constructor
  · rw [equal]
    exact stop?_hash present letters
  · rw [isCurly, curly_block _ startsHere]
    simp only [fuelEq]
    rw [readHere]
    show (blockClose opening.name _ >>= _) = _
    rw [readEnd, Nat.add_assoc offset, ← byteSize_append]
    rfl

/-- A further block of a chain, in front of the closing tag of the whole. -/
theorem readAs_elseBlock {offset : Nat} {start inside tail : List Char} {tags others : BlockTags}
    {opening : BlockOpening} {program : List Statement} {inverse : Option Program}
    (noElseTrim : tags.elseTrim = .none) (noElseSpan : tags.elseSpan = none)
    (starts : Takes elseOpening offset start opening)
    (content : ReadAs (some '{') (offset + byteSize start) inside (.content program))
    (more : ReadAs (some '{') (offset + byteSize (start ++ inside)) tail (.inverse others inverse)) :
    ReadAs (some '{') offset (start ++ inside ++ tail)
      (.inverse tags (some ⟨[.block (opening.tags others.elseTrim others.elseSpan
        (some ⟨offset, offset + byteSize (start ++ inside ++ tail)⟩))
        ⟨program, opening.parts.params, false⟩ inverse], [], true⟩)) := by
  intro size fuel opener outer rest short enough stops
  have read := starts (inside ++ (tail ++ rest))
  have same : start ++ inside ++ tail ++ rest = start ++ (inside ++ (tail ++ rest)) := by
    simp
  have long := List.length_pos_iff.mpr (ne_nil_of_takes starts fun _ => ⟨_, rfl⟩)
  rw [same] at short ⊢
  rw [List.length_append] at short
  simp only [List.length_append] at enough
  obtain ⟨fuel, rfl⟩ := Nat.exists_eq_add_one_of_ne_zero (show fuel ≠ 0 by omega)
  rw [byteSize_append start, ← Nat.add_assoc] at more
  have readHere := blockContent_readAs opening content more (show _ ≤ size by omega)
    (show tail.length ≤ fuel by omega) stops
  rw [Nat.add_assoc offset, ← byteSize_append, Nat.add_assoc offset, ← byteSize_append] at readHere
  refine ⟨.elseTag, stop?_of_elseOpening read, ?_⟩
  rw [blockTail_elseOpening _ _ _ _ read, readHere, noElseTrim, noElseSpan]
  rfl

/-- What is spelled is read. -/
theorem Spelling.readAs {next : Option Char} {offset : Nat} {text : List Char} {phrase : Phrase}
    (spelling : Spelling next offset text phrase) : ReadAs next offset text phrase := by
  induction spelling with
  | nil next offset =>
    intro size rest stop short stops _
    cases size with
    | zero =>
      obtain rfl := List.eq_nil_of_length_eq_zero (Nat.le_zero.mp short)
      cases stops
      rfl
    | succ size =>
      rw [contentWithin]
      simp only [List.nil_append, stops]
      rfl
  | @text next offset run rest body nonempty isRun ended more inductionHypothesis =>
    refine .cons nonempty (fun size back stop _ stops follows => ?_) inductionHypothesis
    have ends := more.endsRun_append ended (endsRun_of_stop? stops)
    exact statement_text _ offset (isRun (rest ++ back) ends (by rw [head?_append_or, follows]))
      nonempty
  | @single next offset piece rest statement body takes more inductionHypothesis =>
    exact .cons (ne_nil_of_takes takes fun _ => ⟨_, rfl⟩)
      (fun size back _ _ _ _ => statement_of_single _ (takes (rest ++ back))) inductionHypothesis
  | @element next offset opening inside closing rest tag start children body starts open' content
      ends more readChildren readMore =>
    have nonempty : opening ≠ [] := ne_nil_of_takes starts fun _ => ⟨_, rfl⟩
    exact .cons (by simp [nonempty]) (fun size back _ short _ _ =>
      statement_readAs_element starts open' readChildren ends (rest ++ back) short) readMore
  | @block next offset start inside tail closing rest opening elseTrim closeTrim elseSpan program
      body inverse starts content others ends more readProgram readOthers readMore =>
    have nonempty : start ≠ [] := ne_nil_of_takes starts fun _ => ⟨_, rfl⟩
    exact .cons (by simp [nonempty]) (fun size back _ short _ _ =>
      statement_readAs_block starts readProgram readOthers ends (rest ++ back) short) readMore
  | noInverse elseTrim elseSpan =>
    intro size fuel opening program rest short enough stops
    refine ⟨.closeTag, stops, ?_⟩
    rw [blockTail_close, elseTrim, elseSpan]
    rfl
  | @elseBody offset piece inside tags body starts elseSpan content inductionHypothesis =>
    intro size fuel opening program rest short enough stops
    have read := starts (inside ++ rest)
    rw [List.append_assoc, List.length_append] at short
    refine ⟨.elseTag, by rw [List.append_assoc]; exact stop?_of_elseTag read, ?_⟩
    rw [List.append_assoc, blockTail_elseTag _ fuel opening program read,
      inductionHypothesis size rest .closeTag (by omega) stops (head?_of_stop? stops (.inl rfl)),
      elseSpan, byteSize_append, ← Nat.add_assoc]
    rfl
  | elseBlock noElseTrim noElseSpan starts content others readProgram readOthers =>
    exact readAs_elseBlock noElseTrim noElseSpan starts readProgram readOthers

end TagMigration.Reader

namespace TagMigration

/-- The templates that can be read are the spelled ones. -/
theorem Template.read_eq_ok {source identity : String} {template : Template} :
    Template.read source identity = .ok template ↔
      ∃ body, template = ⟨identity, source, body⟩ ∧
        Reader.Spelling none 0 source.toList (.content body) := by
  constructor
  · intro success
    obtain ⟨⟨⟨body, stop⟩, last⟩, readContent, success⟩ := bind_eq_ok success
    obtain ⟨spelled, rest, equal, rfl, stops, spelling⟩ :=
      Reader.contentWithin_spelling _ _ _ _ _ _ (Nat.le_refl _) readContent
    cases stop with
    | endOfInput =>
      cases success
      obtain rfl := Reader.eq_nil_of_stop? stops
      rw [List.append_nil] at equal
      rw [show source.toList = spelled from equal]
      exact ⟨body, rfl, spelling⟩
    | closingTag => cases success
    | elseTag => cases success
    | closeTag => cases success
  · rintro ⟨body, rfl, spelling⟩
    have reads := spelling.readAs source.toList.length [] .endOfInput (by simp) rfl rfl
    rw [List.append_nil] at reads
    rw [Template.read, Reader.content, Cursor.ofText]
    show (Reader.contentWithin source.toList.length ⟨0, source.toList⟩ >>= _) = _
    rw [reads]
    rfl

/-- What a template is seen to satisfy when it is read, some template that is read satisfies. -/
theorem Template.exists_of_read {source identity : String} {property : Template → Prop}
    [DecidablePred property]
    (succeeds : ((Template.read source identity).toOption.any fun template =>
      decide (property template)) = true) :
    ∃ template, Template.read source identity = .ok template ∧ property template := by
  cases read : Template.read source identity with
  | error fault =>
    rw [read] at succeeds
    cases succeeds
  | ok template =>
    rw [read] at succeeds
    exact ⟨template, rfl, of_decide_eq_true succeeds⟩

end TagMigration
