/-
A node of a template that was read says what the source says at its spans. The passes decide by
the fields of a node, and the printer copies its slices, so the two must not disagree: the texts,
paths and literals are the slices themselves, every tag shows its name, and every curly tag shows
exactly the `~` markers that its node has. A plain `else` tag belongs to its block; the tag of a
chained `else` is the opening tag of the chained block, which has no closing tag of its own.
-/
import TagMigration.Proofs.Reading.Slices

namespace TagMigration

open Reader

/-! ### What a node shows -/

/-- In the curly tag the mark stands behind the opening braces, and the name behind the mark. -/
def Names (mark : List Char) (name : String) (text : List Char) : Prop :=
  ∃ present blanks gap rest,
    text = tagLead present blanks mark ++ (gap ++ (name.toList ++ rest)) ∧
    (∀ char ∈ blanks ++ gap, isBlank char = true) ∧ name.toList ≠ [] ∧
    (∀ char ∈ name.toList, isNameChar char = true) ∧ Halts isNameChar rest

/-- The source shows at the span a curly tag of the mark and the name, with the `~` markers. -/
def ShowsTag (source : List Char) (span : Option Span) (trim : Trim) (mark : List Char)
    (name : String) : Prop :=
  ∃ text, Shows source span text ∧ Braced openBraces closeBraces trim text ∧ Names mark name text

/-- The source shows the `else` tag in front of a plain inverse. Without a plain inverse there is
no such tag. -/
def BlockTags.ElseAgrees (source : List Char) (tags : BlockTags) : Option Program → Prop
  | some ⟨_, _, false⟩ => ∃ text, Shows source tags.elseSpan text ∧
    Braced openBraces closeBraces tags.elseTrim text ∧
    ∃ present blanks rest, text = tagLead present blanks elseLetters ++ rest
  | some ⟨_, _, true⟩ => tags.elseSpan = none ∧ tags.elseTrim = .none
  | none => tags.elseSpan = none ∧ tags.elseTrim = .none

/-- The source shows the tags of a block as they are, and the closing tag names what the opening
tag names. -/
def BlockTags.Agrees (source : List Char) (tags : BlockTags) (inverse : Option Program)
    (chained : Bool) : Prop :=
  tags.call.Agrees source ∧ tags.ElseAgrees source inverse ∧
    ∃ name, tags.call.callee.name? = some name ∧
      ShowsTag source tags.openSpan tags.openTrim (if chained then elseLetters else ['#']) name ∧
      if chained then tags.closeSpan = none ∧ tags.closeTrim = .none
      else ShowsTag source tags.closeSpan tags.closeTrim ['/'] name

/-- The source shows the tags of an element as they are, and the end tag names what the start tag
names. -/
def ElementTags.Agrees (source : List Char) (tags : ElementTags) : Prop :=
  (∀ attr ∈ tags.attributes, attr.value.Agrees source) ∧
    (∀ modifier ∈ tags.modifiers, modifier.call.Agrees source) ∧
    (∃ rest, Shows source tags.startSpan ('<' :: (tags.tag.toList ++ rest)) ∧
      tagName? (tags.tag.toList ++ rest) = some tags.tag.toList) ∧
    if tags.selfClosing || isVoidTag tags.tag then tags.endSpan = none
    else ∃ blanks, (∀ char ∈ blanks, isBlank char = true) ∧
      Shows source tags.endSpan (['<', '/'] ++ (tags.tag.toList ++ (blanks ++ ['>'])))

/-- What the fields of a node say is what the source shows at its spans. -/
def Node.Agrees (source : List Char) : Node → Prop
  | ⟨.text run, _⟩ => Shows source run.span run.chars.toList
  | ⟨.mustache tag, _⟩ => tag.Agrees source
  | ⟨.block tags _ inverse, chained⟩ => tags.Agrees source inverse chained
  | ⟨.element tags _, _⟩ => tags.Agrees source
  | ⟨.comment remark, _⟩ =>
    Shows source remark.span (['<', '!', '-', '-'] ++ (remark.value.toList ++ ['-', '-', '>']))
  | ⟨.curlyComment _, _⟩ => True

namespace Reader

variable {source : List Char} {offset : Nat} {text : List Char}

/-! ### The tags of an element -/

theorem agrees_elementStart {found : String × StartTag} (stands : Stands source offset text)
    (takes : Takes elementStart offset text found) :
    found.2.Agrees source ∧ ∃ rest, text = '<' :: (found.1.toList ++ rest) ∧
      tagName? (found.1.toList ++ rest) = some found.1.toList := by
  obtain ⟨tag, start⟩ := found
  have success := takes []
  rw [List.append_nil] at success
  obtain ⟨tail, rfl, named, readStart⟩ := elementStart_eq_ok success
  exact ⟨agrees_startTag _ _ _ _ _ _ (@Stands.right _ _ ['<'] _ stands).right readStart, tail, rfl,
    named⟩

theorem elementEnd_shows {tag : String} (takes : Takes (elementEnd tag) offset text ()) :
    ∃ blanks, (∀ char ∈ blanks, isBlank char = true) ∧
      text = ['<', '/'] ++ (tag.toList ++ (blanks ++ ['>'])) := by
  have success := takes []
  rw [List.append_nil] at success
  obtain ⟨blanks, rest, blank, -, equal, after⟩ := elementEnd_eq_ok success
  obtain rfl : [] = rest := congrArg Cursor.rest after
  exact ⟨blanks, blank, by rw [equal, List.append_nil]⟩

/-! ### The tags of a block -/

/-- The inside of an opening tag, up to the end of the tag, behind the braces and a mark. -/
theorem blockOpening_shows {begin : Cursor} {present : Bool} {unnamed : Cause} {place last : Nat}
    {blanks mark gap tail : List Char} {opening : BlockOpening}
    (success : blockOpening begin present unnamed ⟨place, tail⟩ = .ok (opening, ⟨last, []⟩))
    (blank : ∀ char ∈ blanks ++ gap, isBlank char = true) (someMark : mark ≠ [])
    (plain : mark.head? ≠ some '~') :
    Braced openBraces closeBraces ⟨opening.trimBefore, opening.parts.trimAfter⟩
        (tagLead present blanks mark ++ (gap ++ tail)) ∧
      Names mark opening.name (tagLead present blanks mark ++ (gap ++ tail)) := by
  obtain ⟨readParts, isName, rfl, -⟩ := blockOpening_eq_ok success
  obtain ⟨inside, rest, nonempty, equal, after, marks⟩ := tagCall_marked readParts
  obtain rfl : [] = rest := congrArg Cursor.rest after
  refine ⟨?_, ?_⟩
  · have other : (blanks ++ mark ++ gap ++ inside).head? ≠ some '~' := by
      rw [List.append_assoc, List.append_assoc]
      exact head?_blanks (List.forall_mem_append.mp blank).1 (by rwa [head?_append_left someMark])
    have whole : tagLead opening.trimBefore blanks mark ++ (gap ++ tail) =
        openBraces ++ (tilde opening.trimBefore ++ (blanks ++ mark ++ gap ++ inside)) ++
          closeBraces := by
      rw [equal]
      simp [tagLead, openBraces, closeBraces, Closer.chars]
    rw [whole]
    exact braced_tilde nonempty (fun _ => other) marks
  · obtain ⟨space, rest, rfl, isSpace, someName, named, halts⟩ := tagCall_name readParts isName
    refine ⟨opening.trimBefore, blanks, gap ++ space, rest, by simp, ?_, someName, named, halts⟩
    rw [← List.append_assoc]
    exact List.forall_mem_append.mpr ⟨blank, isSpace⟩

theorem agrees_blockStart {opening : BlockOpening} (stands : Stands source offset text)
    (takes : Takes blockStart offset text opening) :
    opening.parts.call.Agrees source ∧
      Braced openBraces closeBraces ⟨opening.trimBefore, opening.parts.trimAfter⟩ text ∧
      Names ['#'] opening.name text := by
  have success := takes []
  rw [List.append_nil] at success
  obtain ⟨present, tail, rfl, plain⟩ := blockStart_eq_ok success
  rw [blockStart_hash offset present plain] at success
  have inside : Stands source (offset + byteSize ('{' :: '{' :: tilde present) + byteSize ['#'])
      tail :=
    @Stands.right _ _ ['#'] _ (@Stands.right _ _ ('{' :: '{' :: tilde present) _ stands)
  have shows := @blockOpening_shows _ _ _ _ _ [] ['#'] [] _ _ success (List.forall_mem_nil _)
    (by simp) (by simp)
  rw [tagLead_append] at shows
  exact ⟨agrees_tagCall _ _ _ _ _ inside (blockOpening_eq_ok success).1, shows⟩

theorem agrees_elseOpening {opening : BlockOpening} (stands : Stands source offset text)
    (takes : Takes elseOpening offset text opening) :
    opening.parts.call.Agrees source ∧
      Braced openBraces closeBraces ⟨opening.trimBefore, opening.parts.trimAfter⟩ text ∧
      Names elseLetters opening.name text := by
  have success := takes []
  rw [List.append_nil] at success
  obtain ⟨present, blanks, gap, tail, blank, isGap, -, -, rfl, -, success⟩ :=
    elseOpening_eq_ok success
  have whole : tagLead present blanks elseLetters ++ (gap ++ tail) =
      tagLead present blanks (elseLetters ++ gap) ++ tail := by
    simp [tagLead]
  have inside := stands
  rw [whole] at inside
  exact ⟨agrees_tagCall _ _ _ _ _ inside.right (blockOpening_eq_ok success).1,
    blockOpening_shows success (List.forall_mem_append.mpr ⟨blank, isGap⟩) (by decide) (by decide)⟩

/-- Behind the word of a tag that has no call stands nothing but a `~` marker. -/
theorem braced_word {trim : Trim} {blanks word : List Char}
    (blank : ∀ char ∈ blanks, isBlank char = true) (someWord : word ≠ [])
    (plain : word.head? ≠ some '~') (unmarked : Unmarked word) :
    Braced openBraces closeBraces trim (tagLead trim.before blanks word ++ tagClose trim.after) := by
  have whole : tagLead trim.before blanks word ++ tagClose trim.after =
      openBraces ++ (tilde trim.before ++ (blanks ++ (word ++ tilde trim.after))) ++ closeBraces := by
    simp [tagLead, tagClose, openBraces, closeBraces]
  rw [whole]
  exact braced_tilde (by simp [someWord])
    (fun _ => head?_blanks blank (by rwa [head?_append_left someWord])) (unmarked.marked trim.after)

theorem elseTag_shows {trim : Trim} (takes : Takes elseTag offset text trim) :
    Braced openBraces closeBraces trim text ∧
      ∃ present blanks rest, text = tagLead present blanks elseLetters ++ rest := by
  have success := takes []
  rw [List.append_nil] at success
  obtain ⟨blanks, gap, rest, blank, isGap, rfl, after⟩ := elseTag_eq_ok success
  obtain rfl : [] = rest := congrArg Cursor.rest after
  rw [List.append_nil]
  have unmarked : Unmarked (elseLetters ++ gap) :=
    Unmarked.append_blanks (by simp [Unmarked, elseLetters]) isGap
  exact ⟨braced_word blank (by simp [elseLetters]) (by simp [elseLetters]) unmarked,
    trim.before, blanks, gap ++ tagClose trim.after, by simp [tagLead]⟩

theorem blockEnd_shows {name : String} {trim : Trim}
    (takes : Takes (blockEnd name) offset text trim) :
    Braced openBraces closeBraces trim text ∧ Names ['/'] name text := by
  have success := takes []
  rw [List.append_nil] at success
  obtain ⟨blanks, gap, space, rest, blank, isGap, someName, named, isSpace, rfl, after⟩ :=
    blockEnd_eq_ok success
  obtain rfl : [] = rest := congrArg Cursor.rest after
  rw [List.append_nil]
  have unmarked : Unmarked (['/'] ++ gap ++ name.toList ++ space) :=
    Unmarked.append_blanks ((unmarked_append someName).mpr (unmarked_of_forall (by decide) named))
      isSpace
  have whole : tagLead trim.before blanks ['/'] ++ (gap ++ (name.toList ++ space)) =
      tagLead trim.before blanks (['/'] ++ gap ++ name.toList ++ space) := by
    simp [tagLead]
  have halts := halts_space_tagClose isSpace trim.after []
  rw [List.append_nil] at halts
  refine ⟨?_, trim.before, blanks, gap, space ++ tagClose trim.after, by simp,
    List.forall_mem_append.mpr ⟨blank, isGap⟩, someName, named, halts⟩
  rw [whole]
  exact braced_word blank (by simp) (by simp) unmarked

/-! ### Nodes -/

theorem agrees_single {statement : Statement} {chained : Bool} (stands : Stands source offset text)
    (takes : Takes single offset text statement) : Node.Agrees source ⟨statement, chained⟩ := by
  cases single_yields.property takes with
  | mustache isMustache braces =>
    have success := isMustache.takes []
    rw [List.append_nil] at success
    exact agrees_mustache stands braces success
  | curlyComment span => trivial
  | comment span whole =>
    rw [Node.Agrees, ← whole]
    exact stands.shows span
  | element span startSpan endSpan alone start =>
    obtain ⟨start, takes, isAttributes, isModifiers⟩ := start
    obtain ⟨⟨attributes, modifiers⟩, rest, whole, named⟩ := agrees_elementStart stands takes
    simp only at whole named
    rw [Node.Agrees, ElementTags.Agrees, isAttributes, isModifiers, if_pos alone]
    exact ⟨attributes, modifiers, ⟨rest, by rw [← whole]; exact stands.shows startSpan, named⟩,
      endSpan⟩

theorem elseAgrees_of_spelling {next : Option Char} {tags : BlockTags} {others : Option Program}
    (stands : Stands source offset text)
    (spelling : Spelling next offset text (.inverse tags others)) :
    tags.ElseAgrees source others := by
  cases spelling with
  | noInverse elseTrim elseSpan => exact ⟨elseSpan, elseTrim⟩
  | elseBody starts elseSpan content =>
    exact ⟨_, stands.left.shows elseSpan, elseTag_shows starts⟩
  | elseBlock noElseTrim noElseSpan => exact ⟨noElseSpan, noElseTrim⟩

theorem ReadFrom.agrees {node : Node} (readFrom : ReadFrom source node) : node.Agrees source := by
  cases readFrom with
  | own stands span spelling =>
    cases spelling with
    | text nonempty isRun ended more =>
      rw [Node.Agrees, String.toList_ofList]
      exact stands.left.shows rfl
    | single takes more => exact agrees_single stands.left takes
    | element starts open' content ends more =>
      obtain ⟨⟨attributes, modifiers⟩, rest, rfl, named⟩ :=
        agrees_elementStart stands.left.left.left starts
      obtain ⟨blanks, blank, rfl⟩ := elementEnd_shows ends
      refine ⟨attributes, modifiers, ⟨rest, stands.left.left.left.shows rfl, named⟩, ?_⟩
      rw [StartTag.closed, if_neg (by rw [open']; exact Bool.false_ne_true)]
      exact ⟨blanks, blank, stands.left.right.shows (by simp only [byteSize_append, Nat.add_assoc])⟩
    | block starts content others ends more =>
      obtain ⟨call, opens⟩ := agrees_blockStart stands.left.left.left.left starts
      have isOpening := blockStart_yields.property starts
      refine ⟨call, elseAgrees_of_spelling stands.left.left.right others, _, isOpening.name,
        ⟨_, stands.left.left.left.left.shows (congrArg some isOpening.span), opens⟩, ?_⟩
      rw [if_neg Bool.false_ne_true]
      exact ⟨_, stands.left.right.shows (by simp [BlockOpening.closed, Nat.add_assoc]),
        blockEnd_shows ends⟩
  | chained stands span spelling =>
    cases spelling with
    | elseBlock noElseTrim noElseSpan starts content others =>
      obtain ⟨call, opens⟩ := agrees_elseOpening stands.left.left starts
      have isOpening := elseOpening_yields.property starts
      exact ⟨call, elseAgrees_of_spelling stands.right others, _, isOpening.name,
        ⟨_, stands.left.left.shows (congrArg some isOpening.span), opens⟩, rfl, rfl⟩

end Reader

/-! ### Templates -/

/-- Whatever a node of a template that was read says of its text, its name and its markers, the
source shows at its spans. -/
theorem fields_agree (source identity : String) (template : Template)
    (read : Template.read source identity = .ok template) :
    ∀ node ∈ template.nodes, node.Agrees source.toList :=
  fun node member => (Template.readFrom_of_read read node member).agrees

/-- A source with every kind of node but a curly comment, and `~` markers on some of each tag. -/
def markedSource : String :=
  "<a b=\"é\x7b\x7b~x null~\x7d\x7d\" \x7b\x7bon -1\x7d\x7d>\x7b\x7b\x7by (z true)~\x7d\x7d\x7d" ++
    "</a ><!--c-->\x7b\x7b~#if p\x7d\x7dq\x7b\x7belse if r~\x7d\x7d\x7b\x7b~else~\x7d\x7d" ++
    "é\x7b\x7b~ / if\x7d\x7d"

theorem fields_agree_markedSource : ∃ template,
    Template.read markedSource "a.hbs" = .ok template ∧ template.nodes.length = 7 ∧
      ∀ node ∈ template.nodes, node.Agrees markedSource.toList := by
  have succeeds : ((Template.read markedSource "a.hbs").toOption.any fun template =>
      decide (template.nodes.length = 7)) = true := by decide +kernel
  obtain ⟨template, read, count⟩ := Template.exists_of_read succeeds
  exact ⟨template, read, count, fields_agree _ _ template read⟩

end TagMigration
