/-
The grammar that the reader follows. A spelling relates a text at an offset to the phrase that
it is read as: runs of text, statements without content, and the frames of elements and
blocks around content again. What follows the text matters to a run at its end only, and
there only by its first character.
-/
import TagMigration.Proofs.Reading.Frame
import TagMigration.Proofs.Tree.Phrase

namespace TagMigration.Reader

/-- Whether a body begins with text. -/
def startsWithText : List Statement → Bool
  | .text _ :: _ => true
  | _ => false

/-- The tags of an element that has its end tag. -/
def StartTag.closed (start : StartTag) (tag : String) (span startSpan endSpan : Span) :
    ElementTags :=
  ⟨tag, start.attributes, start.modifiers, start.params, start.selfClosing, some span,
    some startSpan, some endSpan⟩

/-- In front of a text that stops content and begins with `next`, the text at the offset is the
phrase. The inverse of a block is always followed by a closing tag. -/
inductive Spelling : Option Char → Nat → List Char → Phrase → Prop where
  | nil (next : Option Char) (offset : Nat) : Spelling next offset [] (.content [])
  | text {next : Option Char} {offset : Nat} {run rest : List Char} {body : List Statement}
    (nonempty : run ≠ []) (isRun : IsRun (rest.head?.or next) run)
    (ended : startsWithText body = false)
    (more : Spelling next (offset + byteSize run) rest (.content body)) :
    Spelling next offset (run ++ rest)
      (.content (.text ⟨String.ofList run, some ⟨offset, offset + byteSize run⟩⟩ :: body))
  | single {next : Option Char} {offset : Nat} {piece rest : List Char} {statement : Statement}
    {body : List Statement} (takes : Takes single offset piece statement)
    (more : Spelling next (offset + byteSize piece) rest (.content body)) :
    Spelling next offset (piece ++ rest) (.content (statement :: body))
  | element {next : Option Char} {offset : Nat} {opening inside closing rest : List Char}
    {tag : String} {start : StartTag} {children body : List Statement}
    (starts : Takes elementStart offset opening (tag, start))
    (open' : (start.selfClosing || isVoidTag tag) = false)
    (content : Spelling (some '<') (offset + byteSize opening) inside (.content children))
    (ends : Takes (elementEnd tag) (offset + byteSize (opening ++ inside)) closing ())
    (more : Spelling next (offset + byteSize (opening ++ inside ++ closing)) rest (.content body)) :
    Spelling next offset (opening ++ inside ++ closing ++ rest)
      (.content (.element (start.closed tag ⟨offset, offset + byteSize (opening ++ inside ++ closing)⟩
        ⟨offset, offset + byteSize opening⟩
        ⟨offset + byteSize (opening ++ inside), offset + byteSize (opening ++ inside ++ closing)⟩)
        children :: body))
  | block {next : Option Char} {offset : Nat} {start inside tail closing rest : List Char}
    {opening : BlockOpening} {elseTrim closeTrim : Trim} {elseSpan : Option Span}
    {program body : List Statement} {inverse : Option Program}
    (starts : Takes blockStart offset start opening)
    (content : Spelling (some '{') (offset + byteSize start) inside (.content program))
    (others : Spelling (some '{') (offset + byteSize (start ++ inside)) tail
      (.inverse (opening.closed elseTrim elseSpan closeTrim
        ⟨offset, offset + byteSize (start ++ inside ++ tail ++ closing)⟩
        ⟨offset + byteSize (start ++ inside ++ tail),
          offset + byteSize (start ++ inside ++ tail ++ closing)⟩) inverse))
    (ends : Takes (blockEnd opening.name) (offset + byteSize (start ++ inside ++ tail)) closing
      closeTrim)
    (more : Spelling next (offset + byteSize (start ++ inside ++ tail ++ closing)) rest
      (.content body)) :
    Spelling next offset (start ++ inside ++ tail ++ closing ++ rest)
      (.content (.block (opening.closed elseTrim elseSpan closeTrim
        ⟨offset, offset + byteSize (start ++ inside ++ tail ++ closing)⟩
        ⟨offset + byteSize (start ++ inside ++ tail),
          offset + byteSize (start ++ inside ++ tail ++ closing)⟩)
        ⟨program, opening.parts.params, false⟩ inverse :: body))
  | noInverse {offset : Nat} {tags : BlockTags} (elseTrim : tags.elseTrim = .none)
    (elseSpan : tags.elseSpan = none) : Spelling (some '{') offset [] (.inverse tags none)
  | elseBody {offset : Nat} {piece inside : List Char} {tags : BlockTags} {body : List Statement}
    (starts : Takes elseTag offset piece tags.elseTrim)
    (elseSpan : tags.elseSpan = some ⟨offset, offset + byteSize piece⟩)
    (content : Spelling (some '{') (offset + byteSize piece) inside (.content body)) :
    Spelling (some '{') offset (piece ++ inside) (.inverse tags (some ⟨body, [], false⟩))
  | elseBlock {offset : Nat} {start inside tail : List Char} {tags : BlockTags}
    {opening : BlockOpening} {elseTrim : Trim} {elseSpan : Option Span} {program : List Statement}
    {inverse : Option Program} (noElseTrim : tags.elseTrim = .none)
    (noElseSpan : tags.elseSpan = none) (starts : Takes elseOpening offset start opening)
    (content : Spelling (some '{') (offset + byteSize start) inside (.content program))
    (others : Spelling (some '{') (offset + byteSize (start ++ inside)) tail
      (.inverse (opening.tags elseTrim elseSpan
        (some ⟨offset, offset + byteSize (start ++ inside ++ tail)⟩)) inverse)) :
    Spelling (some '{') offset (start ++ inside ++ tail)
      (.inverse tags (some ⟨[.block (opening.tags elseTrim elseSpan
        (some ⟨offset, offset + byteSize (start ++ inside ++ tail)⟩))
        ⟨program, opening.parts.params, false⟩ inverse], [], true⟩))

/-- A spelling with nothing behind it. -/
theorem Spelling.alone {next : Option Char} {offset : Nat} {text : List Char} {phrase : Phrase}
    (spelling : Spelling next offset (text ++ []) phrase) : Spelling next offset text phrase := by
  rwa [List.append_nil] at spelling

/-! ### Where text and content end -/

theorem endsText_of_single {offset : Nat} {text : List Char} {found : Statement} {after : Cursor}
    (success : single ⟨offset, text⟩ = .ok (found, after)) : endsText text = true := by
  unfold single at success
  split at success
  · next tests => exact tests.2
  · cases success

theorem endsText_of_startsElement {text : List Char} (starts : startsElement text = true) :
    endsText text = true := by
  rw [endsText, starts, Bool.or_true]

theorem endsText_of_blockStart {offset : Nat} {text : List Char} {opening : BlockOpening}
    {after : Cursor} (success : blockStart ⟨offset, text⟩ = .ok (opening, after)) :
    endsText text = true := by
  obtain ⟨present, tail, rfl, -⟩ := blockStart_eq_ok success
  rfl

section Ends

variable {next : Option Char} {offset : Nat} {text : List Char} {body : List Statement}

theorem Spelling.endsRun (spelling : Spelling next offset text (.content body))
    (ended : startsWithText body = false) : EndsRun text := by
  cases spelling with
  | nil => exact .inl rfl
  | text => cases ended
  | single takes more =>
    have ends := endsText_of_single (takes [])
    rw [List.append_nil] at ends
    exact .inr (endsText_append ends _)
  | element starts open' content ends more =>
    have ends := endsText_of_startsElement (startsElement_of_takes starts [])
    rw [List.append_nil] at ends
    rw [List.append_assoc, List.append_assoc]
    exact .inr (endsText_append ends _)
  | block starts content others ends more =>
    have ends := endsText_of_blockStart (starts [])
    rw [List.append_nil] at ends
    rw [List.append_assoc, List.append_assoc, List.append_assoc]
    exact .inr (endsText_append ends _)

theorem Spelling.endsRun_append (spelling : Spelling next offset text (.content body))
    (ended : startsWithText body = false) {back : List Char} (ends : EndsRun back) :
    EndsRun (text ++ back) := by
  rcases spelling.endsRun ended with rfl | endsHere
  · exact ends
  · exact .inr (endsText_append endsHere back)

theorem head?_append_or (front back : List Char) :
    (front ++ back).head? = front.head?.or back.head? := by
  cases front <;> rfl

/-- In front of something that ends runs there is no text. -/
theorem Spelling.not_startsWithText (spelling : Spelling next offset text (.content body))
    {back : List Char} (ends : EndsRun back) (follows : back.head? = next)
    (endsHere : EndsRun (text ++ back)) : startsWithText body = false := by
  cases spelling with
  | nil => rfl
  | single takes more => cases single_yields.property takes <;> rfl
  | element => rfl
  | block => rfl
  | text nonempty isRun ended more =>
    rename_i run rest body
    have endsRest := more.endsRun_append ended ends
    have isHere := isRun (rest ++ back) endsRest (by rw [head?_append_or, follows])
    rw [List.append_assoc] at endsHere
    rw [textRun_of_endsRun endsHere] at isHere
    exact absurd isHere.symm nonempty

end Ends

end TagMigration.Reader
