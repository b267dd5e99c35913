/-
One tree over two sources. A tree that a pass has made of a template still points into that
template's source, and some of its nodes point nowhere; the tree that is read back from the
printed text points everywhere into that text. The two are twins: equal up to spans, and
node for node they print the same, each over its own source. A twin also has attributes to
show for the named arguments of every call, because that is how a call is printed
as a tag.
-/
import TagMigration.Invocation.Basic
import TagMigration.Proofs.Tree.Print

namespace TagMigration

/-- Both printers succeed, with the same text. -/
def Agree (first second : Printed) : Prop :=
  ∃ text, first = .ok text ∧ second = .ok text

/-- The opening tags of two blocks are equal up to spans and print the same, and so do the named
arguments of their calls as attributes. -/
structure TwinTags (source other : List Char) (params : List String) (chained : Bool)
    (tags twin : BlockTags) : Prop where
  alike : tags.mapSpans eraseSpan = twin.mapSpans eraseSpan
  attributes : Agree (printAttributes source tags.call.toAttributes)
    (printAttributes other twin.call.toAttributes)
  opening : Agree (tags.printOpen source params chained) (twin.printOpen other params chained)

/-- The first phrase over `source` and the second over `other` are twins. -/
inductive Twin (source other : List Char) : Phrase → Phrase → Prop where
  | nil : Twin source other (.content []) (.content [])
  | plain {statement twin : Statement} {body rest : List Statement}
    (isLeaf : statement.isLeaf = true) (isPlain : statement.invocation? = none)
    (alike : statement.mapSpans eraseSpan = twin.mapSpans eraseSpan)
    (prints : Agree (statement.print source) (twin.print other))
    (more : Twin source other (.content body) (.content rest)) :
    Twin source other (.content (statement :: body)) (.content (twin :: rest))
  | mustache {tag twin : Mustache} {body rest : List Statement}
    (alike : tag.mapSpans eraseSpan = twin.mapSpans eraseSpan)
    (attributes : Agree (printAttributes source tag.call.toAttributes)
      (printAttributes other twin.call.toAttributes))
    (prints : Agree (tag.print source) (twin.print other))
    (more : Twin source other (.content body) (.content rest)) :
    Twin source other (.content (.mustache tag :: body)) (.content (.mustache twin :: rest))
  | element {tags twin : ElementTags} {children others body rest : List Statement}
    (alike : tags.mapSpans eraseSpan = twin.mapSpans eraseSpan)
    (start : Agree (tags.printStart source) (twin.printStart other))
    (ending : tags.selfClosing = false → Agree (tags.printEnd source) (twin.printEnd other))
    (content : Twin source other (.content children) (.content others))
    (more : Twin source other (.content body) (.content rest)) :
    Twin source other (.content (.element tags children :: body))
      (.content (.element twin others :: rest))
  | block {tags twin : BlockTags} {program copy body rest : List Statement} {params : List String}
    {chained : Bool} {inverse others : Option Program}
    (opens : TwinTags source other params false tags twin)
    (closes : Agree (tags.printClose source) (twin.printClose other))
    (content : Twin source other (.content program) (.content copy))
    (inverses : Twin source other (.inverse tags inverse) (.inverse twin others))
    (more : Twin source other (.content body) (.content rest)) :
    Twin source other (.content (.block tags ⟨program, params, chained⟩ inverse :: body))
      (.content (.block twin ⟨copy, params, chained⟩ others :: rest))
  | noInverse {tags twin : BlockTags} : Twin source other (.inverse tags none) (.inverse twin none)
  | elseBody {tags twin : BlockTags} {body copy : List Statement} {params : List String}
    (middle : Agree (tags.printElse source) (twin.printElse other))
    (content : Twin source other (.content body) (.content copy)) :
    Twin source other (.inverse tags (some ⟨body, params, false⟩))
      (.inverse twin (some ⟨copy, params, false⟩))
  | elseBlock {tags twin outer outerTwin : BlockTags} {program copy : List Statement}
    {params bound : List String} {chained : Bool} {inverse others : Option Program}
    (opens : TwinTags source other params true tags twin)
    (content : Twin source other (.content program) (.content copy))
    (inverses : Twin source other (.inverse tags inverse) (.inverse twin others)) :
    Twin source other
      (.inverse outer (some ⟨[.block tags ⟨program, params, chained⟩ inverse], bound, true⟩))
      (.inverse outerTwin (some ⟨[.block twin ⟨copy, params, chained⟩ others], bound, true⟩))

section Twin

variable {source other : List Char} {phrase twin : Phrase}

/-- A text is a twin of itself. -/
theorem twin_text (chars : String) (span twinSpan : Option Span) {body rest : List Statement}
    (more : Twin source other (.content body) (.content rest)) :
    Twin source other (.content (.text ⟨chars, span⟩ :: body))
      (.content (.text ⟨chars, twinSpan⟩ :: rest)) :=
  .plain rfl rfl rfl ⟨chars.toList, by rw [Statement.print], by rw [Statement.print]⟩ more

/-- Twins are equal up to spans. -/
theorem Twin.alike (twins : Twin source other phrase twin) : phrase.Alike twin := by
  induction twins with
  | nil => rfl
  | plain isLeaf isPlain alike prints more alikeMore =>
    simp only [Phrase.Alike, mapBody] at alikeMore ⊢
    rw [alike, alikeMore]
  | mustache alike attributes prints more alikeMore =>
    simp only [Phrase.Alike, mapBody, Statement.mapSpans] at alikeMore ⊢
    rw [alike, alikeMore]
  | element alike start ending content more alikeChildren alikeMore =>
    simp only [Phrase.Alike, mapBody, Statement.mapSpans] at alikeChildren alikeMore ⊢
    rw [alike, alikeChildren, alikeMore]
  | block opens closes content inverses more alikeProgram alikeInverse alikeMore =>
    simp only [Phrase.Alike, mapBody, Statement.mapSpans, Program.mapSpans]
      at alikeProgram alikeInverse alikeMore ⊢
    rw [opens.alike, alikeProgram, alikeInverse, alikeMore]
  | noInverse => rfl
  | elseBody middle content alikeBody =>
    simp only [Phrase.Alike, mapInverse, Program.mapSpans] at alikeBody ⊢
    rw [alikeBody]
  | elseBlock opens content inverses alikeProgram alikeInverse =>
    simp only [Phrase.Alike, mapInverse, mapBody, Statement.mapSpans, Program.mapSpans]
      at alikeProgram alikeInverse ⊢
    rw [opens.alike, alikeProgram, alikeInverse]

/-- Twins print the same. -/
theorem Twin.print (twins : Twin source other phrase twin) :
    Agree (phrase.print source) (twin.print other) := by
  induction twins with
  | nil => exact ⟨[], printBody.eq_1 source, printBody.eq_1 other⟩
  | plain isLeaf isPlain alike prints more printMore =>
    obtain ⟨first, left, right⟩ := prints
    obtain ⟨rest, leftMore, rightMore⟩ := printMore
    exact ⟨first ++ rest, printBody_cons left leftMore, printBody_cons right rightMore⟩
  | @mustache tag twin body others alike attributes prints more printMore =>
    obtain ⟨first, left, right⟩ := prints
    obtain ⟨rest, leftMore, rightMore⟩ := printMore
    have statement : (Statement.mustache tag).print source = .ok first := by
      rw [Statement.print, left]
    have copy : (Statement.mustache twin).print other = .ok first := by
      rw [Statement.print, right]
    exact ⟨first ++ rest, printBody_cons statement leftMore, printBody_cons copy rightMore⟩
  | @element tags twin children copies body others alike start ending content more printChildren
      printMore =>
    obtain ⟨first, left, right⟩ := start
    obtain ⟨second, leftInner, rightInner⟩ := printChildren
    obtain ⟨rest, leftMore, rightMore⟩ := printMore
    have sameForm : tags.selfClosing = twin.selfClosing :=
      (congrArg ElementTags.selfClosing alike :)
    cases closing : tags.selfClosing with
    | true =>
      refine ⟨first ++ rest, printBody_cons (Statement.print_selfClosing closing left) leftMore,
        printBody_cons (Statement.print_selfClosing ?_ right) rightMore⟩
      rw [← sameForm, closing]
    | false =>
      obtain ⟨third, leftEnd, rightEnd⟩ := ending closing
      refine ⟨_, printBody_cons (Statement.print_element closing left leftInner leftEnd) leftMore,
        printBody_cons (Statement.print_element ?_ right rightInner rightEnd) rightMore⟩
      rw [← sameForm, closing]
  | block opens closes content inverses more printProgram printInverses printMore =>
    obtain ⟨first, left, right⟩ := opens.opening
    obtain ⟨second, leftInner, rightInner⟩ := printProgram
    obtain ⟨third, leftOthers, rightOthers⟩ := printInverses
    obtain ⟨fourth, leftEnd, rightEnd⟩ := closes
    obtain ⟨rest, leftMore, rightMore⟩ := printMore
    exact ⟨_, printBody_cons (Statement.print_block left leftInner leftOthers leftEnd) leftMore,
      printBody_cons (Statement.print_block right rightInner rightOthers rightEnd) rightMore⟩
  | @noInverse tags twin =>
    exact ⟨[], printInverse.eq_1 source tags, printInverse.eq_1 other twin⟩
  | elseBody middle content printContent =>
    obtain ⟨first, left, right⟩ := middle
    obtain ⟨second, leftInner, rightInner⟩ := printContent
    rw [Phrase.print, Phrase.print]
    exact ⟨_, printInverse_else left leftInner, printInverse_else right rightInner⟩
  | elseBlock opens content inverses printProgram printInverses =>
    obtain ⟨first, left, right⟩ := opens.opening
    obtain ⟨second, leftInner, rightInner⟩ := printProgram
    obtain ⟨third, leftOthers, rightOthers⟩ := printInverses
    rw [Phrase.print, Phrase.print]
    exact ⟨_, printInverse_chain left leftInner leftOthers,
      printInverse_chain right rightInner rightOthers⟩

/-- Bodies one behind the other. -/
theorem Twin.append {first copy second rest : List Statement}
    (twins : Twin source other (.content first) (.content copy))
    (more : Twin source other (.content second) (.content rest)) :
    Twin source other (.content (first ++ second)) (.content (copy ++ rest)) := by
  induction first generalizing copy with
  | nil =>
    cases twins
    exact more
  | cons statement body inductionHypothesis =>
    cases twins with
    | plain isLeaf isPlain alike prints tail =>
      exact .plain isLeaf isPlain alike prints (inductionHypothesis tail)
    | mustache alike attributes prints tail =>
      exact .mustache alike attributes prints (inductionHypothesis tail)
    | element alike start ending content tail =>
      exact .element alike start ending content (inductionHypothesis tail)
    | block opens closes content inverses tail =>
      exact .block opens closes content inverses (inductionHypothesis tail)

end Twin

end TagMigration
