/-
The text of a tag in place of an invocation. The named arguments of the invocation were read from
the source, so they can be written as attributes; what the block holds is spelled again between the
start tag and the end tag, after a new line. If the content begins with text, the new line is part
of that text. So the rule whose work is spelled again is the one that joins the two; and on content
that was read it does what the rule does, with neighbouring texts merged.
-/
import TagMigration.Proofs.Pass.Joined
import TagMigration.Proofs.Reading.BuiltTag
import TagMigration.Proofs.Reading.Respelled

namespace TagMigration

/-! ### Invocations that have a tag to stand for them -/

/-- If the rule makes the statement a tag, every named argument of it can be written as an
attribute. -/
def Occurrence.FitsTag (confirmed : List String) (occurrence : Occurrence) : Prop :=
  ((TagForm.rule confirmed).replace? occurrence.scope occurrence.statement).isSome = true →
    ∀ invocation ∈ occurrence.statement.invocation?, ∀ argument ∈ invocation.call.named,
      argument.FitsTag

instance (confirmed : List String) (occurrence : Occurrence) :
    Decidable (occurrence.FitsTag confirmed) :=
  inferInstanceAs (Decidable (
    ((TagForm.rule confirmed).replace? occurrence.scope occurrence.statement).isSome = true →
      ∀ invocation ∈ occurrence.statement.invocation?, ∀ argument ∈ invocation.call.named,
        argument.FitsTag))

theorem TagForm.isTagName_of_tag? {confirmed : List String} {scope : Scope}
    {statement : Statement} {tag : String} (found : tag? confirmed scope statement = some tag) :
    IsTagName tag := by
  obtain ⟨invocation, -, found⟩ := Option.bind_eq_some_iff.mp found
  split at found
  · cases found
  · obtain ⟨name, -, found⟩ := Option.bind_eq_some_iff.mp found
    split at found
    · exact TagName.isTagName_of_ofName? found
    · cases found

theorem NamedArgument.fitsTag_mapSpans (change : Option Span → Option Span)
    (argument : NamedArgument) : (argument.mapSpans change).FitsTag ↔ argument.FitsTag := by
  obtain ⟨key, value, span⟩ := argument
  simp only [FitsTag, NamedArgument.mapSpans, Expression.name?_mapSpans]

theorem fitsTag_mapNamed (change : Option Span → Option Span) (named : List NamedArgument) :
    (∀ argument ∈ mapNamed change named, argument.FitsTag) ↔
      ∀ argument ∈ named, argument.FitsTag := by
  induction named with
  | nil => rfl
  | cons argument named inductionHypothesis =>
    rw [mapNamed, List.forall_mem_cons, List.forall_mem_cons, inductionHypothesis,
      NamedArgument.fitsTag_mapSpans]

namespace Reader

/-! ### Texts that meet -/

section Joint

variable {statement : Statement} {rest : List Statement}

theorem exists_text (starts : startsWithText rest = true) :
    ∃ run others, rest = .text run :: others := by
  cases rest with
  | nil => cases starts
  | cons statement others =>
    cases statement <;> first | exact ⟨_, _, rfl⟩ | cases starts

theorem joinText_of_notText (notText : startsWithText [statement] = false) :
    joinText statement rest = statement :: rest := by
  rcases joinText_cases statement rest with same | ⟨first, second, others, rfl, -, -⟩
  · exact same
  · cases notText

theorem joinText_of_ended (ended : startsWithText rest = false) :
    joinText statement rest = statement :: rest := by
  rcases joinText_cases statement rest with same | ⟨first, second, others, -, rfl, -⟩
  · exact same
  · cases ended

end Joint

/-! ### Content between tags -/

/-- Content in front of a brace is content in front of an angle bracket. -/
theorem Spelling.bracket {offset : Nat} {text : List Char} {body : List Statement}
    (spelling : Spelling (some '{') offset text (.content body)) :
    Spelling (some '<') offset text (.content body) := by
  generalize phraseEq : Phrase.content body = phrase at spelling
  generalize nextEq : some '{' = next at spelling
  induction spelling generalizing body with
  | nil next offset =>
    cases phraseEq
    exact .nil _ _
  | @text next offset run rest body nonempty isRun ended more inMore =>
    cases phraseEq
    refine .text nonempty ?_ ended (inMore rfl nextEq)
    cases rest with
    | nil =>
      rw [← nextEq] at isRun
      exact isRun.bracket
    | cons char rest => exact isRun
  | single takes more inMore =>
    cases phraseEq
    exact .single takes (inMore rfl nextEq)
  | element starts open' content ends more inContent inMore =>
    cases phraseEq
    exact .element starts open' content ends (inMore rfl nextEq)
  | block starts content others ends more inContent inOthers inMore =>
    cases phraseEq
    exact .block starts content others ends (inMore rfl nextEq)
  | noInverse => cases phraseEq
  | elseBody => cases phraseEq
  | elseBlock => cases phraseEq

section Content

variable {rule : Rule} {scope : Scope} {source : List Char} {next : Option Char}

theorem Respells.bracket {property : Phrase → Prop} {text : List Char} {body : List Statement}
    (respells : Respells property source (some '{') text (.content body)) :
    Respells property source (some '<') text (.content body) := by
  intro there
  obtain ⟨copy, spelling, twins, has⟩ := respells there
  exact ⟨copy, spelling.bracket, twins, has⟩

/-- A text joined to a new line, over the source and in the copy. -/
theorem twin_joinText {other letters : List Char} {run : TextRun} {body rest : List Statement}
    {span : Option Span}
    (twins : Twin source other (.content (.text run :: body))
      (.content (.text ⟨String.ofList letters, span⟩ :: rest))) (joinedSpan : Option Span) :
    Twin source other (.content (.text ⟨"\n" ++ run.chars, none⟩ :: body))
      (.content (.text ⟨String.ofList ('\n' :: letters), joinedSpan⟩ :: rest)) := by
  cases twins with
  | plain isLeaf isPlain alike prints more =>
    obtain ⟨same, -⟩ := TextRun.mk.inj (Statement.text.inj alike)
    have joined : "\n" ++ run.chars = String.ofList ('\n' :: letters) := by
      rw [same, ← List.singleton_append, String.ofList_append]
    rw [joined]
    exact twin_text _ none joinedSpan more

/-- A new line in front of content that is spelled again. -/
theorem respells_newLine (only : rule.OnInvocations) {text : List Char} {body : List Statement}
    (respells : Respells (Kept rule scope) source next text (.content body)) :
    Respells (Kept rule scope) source next ('\n' :: text)
      (.content (joinText (Build.text "\n") body)) := by
  cases starts : startsWithText body with
  | false =>
    rw [joinText_of_ended starts]
    exact respells_text only none (List.cons_ne_nil _ _) (isRun_nil _).newLine starts respells
  | true =>
    -- The copy begins with text as well, and a run goes on in front.
    obtain ⟨run, body, rfl⟩ := exists_text starts
    intro there
    obtain ⟨copy, spelling, twins, kept⟩ := respells (there + byteSize ['\n'])
    obtain ⟨other, stands⟩ := exists_stands (there + byteSize ['\n']) text
    obtain ⟨copyRun, copies, rfl⟩ := exists_text (startsWithText_of_twin (twins other stands))
    cases spelling with
    | single takes more => cases single_yields.property takes
    | @text _ _ letters rest body nonempty isRun ended more =>
      have place : there + byteSize ['\n'] + byteSize letters =
          there + byteSize ('\n' :: letters) := by
        simp only [byteSize_cons, byteSize_nil]
        omega
      rw [place] at more
      refine ⟨_, .text (List.cons_ne_nil _ _) isRun.newLine ended more,
        fun other stands => twin_joinText (twins other ?_) _,
        kept_cons (kept_single (Rule.rewrite_text scope only _)) (kept_uncons kept).2⟩
      rw [← List.singleton_append] at stands
      exact stands.right

end Content

/-! ### Tags that are built -/

section Built

variable {rule : Rule} {scope : Scope} {source : List Char} {next : Option Char}

/-- The call, over the source, is a twin of one that was read. -/
def HasReadTwin (source : List Char) (call : Call) : Prop :=
  ∃ other copy, call.mapSpans eraseSpan = Call.mapSpans eraseSpan copy ∧
    Agree (printAttributes source call.toAttributes) (printAttributes other copy.toAttributes) ∧
    ∀ argument ∈ copy.named, IsGiven other argument

theorem hasReadTwin_mustache {piece : List Char} {tag : Mustache}
    (respells : Respells (fun _ => True) source next piece (.content [.mustache tag])) :
    HasReadTwin source tag.call := by
  -- The piece stands in itself, so the copy at its beginning was read from it.
  obtain ⟨copy, spelling, twins, -⟩ := respells.single 0
  cases twins piece (stands_self piece) with
  | plain isLeaf isPlain => cases isPlain
  | mustache alike attributes prints more =>
    refine ⟨piece, _, congrArg Mustache.call alike, attributes, ?_⟩
    cases spelling with
    | single takes more =>
      cases more
      cases single_yields.property takes with
      | mustache isMustache => exact mustache_given (stands_self _) (isMustache.takes [])

theorem hasReadTwin_block {piece : List Char} {tags : BlockTags} {program : Program}
    {inverse : Option Program}
    (respells : Respells (fun _ => True) source next piece (.content [.block tags program inverse])) :
    HasReadTwin source tags.call ∧ ∀ name ∈ program.params, IsParam name := by
  obtain ⟨copy, spelling, twins, -⟩ := respells.single 0
  cases twins piece (stands_self piece) with
  | plain isLeaf isPlain => cases isLeaf
  | block opens closes content inverses more =>
    cases spelling with
    | single takes more => cases single_yields.property takes
    | block starts content others ends more =>
      have success := starts []
      rw [List.append_nil] at success
      obtain ⟨isGiven, isParam⟩ := blockStart_given (stands_self _).left.left.left.left success
      exact ⟨⟨_, _, congrArg BlockTags.call opens.alike, opens.attributes, isGiven⟩, isParam⟩

/-- The start tag that is built from a call. -/
theorem HasReadTwin.exists_tagReadsBack {call : Call} (twin : HasReadTwin source call)
    {tag : String} {params : List String} (isTagName : IsTagName tag)
    (fits : ∀ argument ∈ call.named, argument.FitsTag) (isParam : ∀ name ∈ params, IsParam name)
    (selfClosing : Bool) :
    ∃ text, TagReadsBack source text tag ⟨call.toAttributes, [], params, selfClosing⟩ := by
  obtain ⟨other, copy, alike, ⟨printed, left, right⟩, isGiven⟩ := twin
  have sameNamed : mapNamed eraseSpan call.named = mapNamed eraseSpan copy.named := by
    rw [← Call.mapSpans_named, alike, Call.mapSpans_named]
  have fitsCopy : ∀ argument ∈ copy.named, argument.FitsTag := by
    rwa [← fitsTag_mapNamed eraseSpan, ← sameNamed, fitsTag_mapNamed]
  obtain ⟨text, prints, bracket, reads⟩ := Reader.exists_tagReadsBack isTagName
    (fun argument member => ⟨isGiven argument member, fitsCopy argument member⟩) isParam selfClosing
  refine ⟨text, ?_, bracket, fun offset => ?_⟩
  · rw [← prints]
    exact (ElementTags.printStart_built left ..).trans (ElementTags.printStart_built right ..).symm
  · obtain ⟨start, takes, alikeStart⟩ := reads offset
    refine ⟨start, takes, alikeStart.trans ?_⟩
    have sameAttributes : copy.toAttributes.map (Attribute.mapSpans eraseSpan) =
        call.toAttributes.map (Attribute.mapSpans eraseSpan) := by
      rw [Call.toAttributes_erase, Call.toAttributes_erase, alike]
    rw [StartTag.mapSpans, StartTag.mapSpans]
    exact congrArg (StartTag.mk · [] params selfClosing) sameAttributes

/-- A tag that closes itself. -/
theorem TagReadsBack.respells_alone (only : rule.OnInvocations) {text : List Char} {tag : String}
    {attributes : List Attribute} {params : List String}
    (readsBack : TagReadsBack source text tag ⟨attributes, [], params, true⟩) :
    Respells (Kept rule scope) source next text
      (.content [Build.element tag attributes params true []]) := by
  intro there
  obtain ⟨start, takes, alike⟩ := readsBack.reads there
  have closed : start.selfClosing = true := congrArg StartTag.selfClosing alike
  have spelled := (Spelling.single (takes_alone takes (by rw [closed]; rfl)) (.nil next _)).alone
  refine ⟨_, spelled, fun other stands => ?_, kept_single (rewrite_element_of_kept only ?_)⟩
  · refine .element ?_ ?_ (fun open' => nomatch open') .nil .nil
    · exact StartTag.alike_tags alike.symm ..
    · exact .of_eq readsBack.prints (stands.copyOr _)
  · rw [Kept, Rule.rewritePhrase, Rule.rewriteBody]

/-- A tag around content that is spelled again. -/
theorem TagReadsBack.respells_around (only : rule.OnInvocations) {text inside : List Char}
    {tag : String} {attributes : List Attribute} {params : List String} {children : List Statement}
    (readsBack : TagReadsBack source text tag ⟨attributes, [], params, false⟩)
    (isTagName : IsTagName tag)
    (content : Respells (Kept rule (scope.within params)) source (some '<') inside
      (.content children)) :
    Respells (Kept rule scope) source next (text ++ inside ++ ("</".toList ++ tag.toList ++ ['>']))
      (.content [Build.element tag attributes params false children]) := by
  intro there
  obtain ⟨start, takes, alike⟩ := readsBack.reads there
  have open' : start.selfClosing = false := congrArg StartTag.selfClosing alike
  have sameParams : start.params = params := congrArg StartTag.params alike
  obtain ⟨copy, spelling, twins, kept⟩ := content (there + byteSize text)
  have spelled := (Spelling.element takes (by rw [open', isTagName.notVoid]; rfl) spelling
    (takes_endTag isTagName _) (.nil next _)).alone
  refine ⟨_, spelled, fun other stands => ?_, kept_single (rewrite_element_of_kept only ?_)⟩
  · have standsClose := stands.right
    refine .element ?_ ?_ (fun _ => ?_) (twins other stands.left.right) .nil
    · exact StartTag.alike_tags alike.symm ..
    · exact .of_eq readsBack.prints (stands.left.left.copyOr _)
    · refine .of_eq (ElementTags.printEnd_built ..) ?_
      rw [byteSize_append (text ++ inside), ← Nat.add_assoc]
      exact standsClose.copyOr _
  · rwa [← sameParams] at kept

/-- What the joining rule makes of a template can be spelled. -/
theorem respelling_joined (confirmed : List String) (source : List Char) :
    Respelling (TagForm.joined confirmed) source (Occurrence.FitsTag confirmed) where
  only := TagForm.joined_onInvocations confirmed
  notText replaces := by
    obtain ⟨tag, -, ⟨_, -, rfl⟩ | ⟨_, _, _, _, -, rfl⟩⟩ := TagForm.joined_cases replaces <;> rfl
  blind {scope statement twin} alike stays := by
    have same := @eq_of_alike _ (fun other => ((TagForm.rule confirmed).replace? scope other).isNone)
      (TagForm.isNone_replace?_mapSpans confirmed scope) _ _ alike
    rw [← Option.isNone_iff_eq_none, TagForm.joined, Option.isNone_map] at stays ⊢
    rw [← same, stays]
  shallow {scope tags program inner params chained inverse others} same isFine := by
    intro becomes
    rw [TagForm.isSome_replace?_block confirmed scope tags ⟨program, params, chained⟩ _ same]
      at becomes
    exact isFine becomes
  leaves left := nomatch left
  replaces {scope statement replacement piece} replaces isFine respells content := by
    have only := TagForm.joined_onInvocations confirmed
    have becomes : ((TagForm.rule confirmed).replace? scope statement).isSome = true := by
      rw [← Option.isSome_map]
      exact Option.isSome_of_eq_some replaces
    have fits := isFine becomes
    obtain ⟨tag, found, ⟨invocation, rfl, rfl⟩ | ⟨tags, body, params, chained, rfl, rfl⟩⟩ :=
      TagForm.joined_cases replaces
    · obtain ⟨text, readsBack⟩ := (hasReadTwin_mustache respells).exists_tagReadsBack
        (TagForm.isTagName_of_tag? found) (fits _ rfl) (List.forall_mem_nil _) true
      exact ⟨text, .inr ⟨rfl, readsBack.bracket⟩, readsBack.respells_alone only⟩
    · obtain ⟨twin, isParam⟩ := hasReadTwin_block respells
      obtain ⟨text, readsBack⟩ := twin.exists_tagReadsBack (TagForm.isTagName_of_tag? found)
        (fits _ rfl) isParam false
      obtain ⟨inside, respellsInside⟩ := content tags body params chained none rfl
      refine ⟨_, .inr ⟨rfl, ?_⟩, readsBack.respells_around only (TagForm.isTagName_of_tag? found)
        (respells_newLine only respellsInside).bracket⟩
      rw [head?_append_or, head?_append_or, readsBack.bracket]
      rfl

end Built

/-! ### Joining and merging -/

section Merging

variable {scope : Scope} {statement : Statement}

/-- A rule that replaces neither texts nor by texts goes through a joint. -/
theorem Respelling.rewriteBody_joinText {rule : Rule} {source : List Char}
    {fine : Occurrence → Prop} (respelling : Respelling rule source fine) (scope : Scope)
    (statement : Statement) (rest : List Statement) :
    rule.rewriteBody scope (joinText statement rest) =
      (joinText (rule.rewrite scope statement).1 (rule.rewriteBody scope rest).1,
        (rule.rewrite scope statement).2 + (rule.rewriteBody scope rest).2) := by
  have stays := Rule.rewrite_text scope respelling.only
  cases starts : startsWithText [statement] with
  | false =>
    rw [joinText_of_notText starts, rule.rewriteBody_cons,
      joinText_of_notText (respelling.rewrite_notText scope starts)]
  | true =>
    cases ended : startsWithText rest with
    | false =>
      rw [joinText_of_ended ended, rule.rewriteBody_cons,
        joinText_of_ended (respelling.rewriteBody_notText scope ended)]
    | true =>
      obtain ⟨first, -, ⟨⟩⟩ := exists_text starts
      obtain ⟨second, rest, rfl⟩ := exists_text ended
      rw [joinText, rule.rewriteBody_cons, rule.rewriteBody_cons, stays, stays, stays, joinText]
      simp only [Nat.zero_add]

/-- On merged content the joining rule puts what the rule puts, merged. -/
theorem replaced_merge (confirmed : List String) (scope : Scope) (statement : Statement) :
    (TagForm.joined confirmed).replaced scope statement.merge =
      (((TagForm.rule confirmed).replaced scope statement).1.merge,
        ((TagForm.rule confirmed).replaced scope statement).2) := by
  cases statement with
  | mustache tag =>
    simp only [Rule.replaced, TagForm.joined, TagForm.rule, Statement.merge]
    cases TagForm.tag? confirmed scope (.mustache tag) with
    | none => rfl
    | some name => rfl
  | block tags program inverse =>
    obtain ⟨body, params, chained⟩ := program
    have sameTag : TagForm.tag? confirmed scope
        (Statement.block tags ⟨body, params, chained⟩ inverse).merge =
          TagForm.tag? confirmed scope (.block tags ⟨body, params, chained⟩ inverse) := rfl
    simp only [Rule.replaced, TagForm.joined, TagForm.rule, sameTag]
    cases TagForm.tag? confirmed scope (.block tags ⟨body, params, chained⟩ inverse) with
    | none => rfl
    | some name => cases inverse <;> rfl
  | _ => rfl

/-- Merging the phrase and then rewriting it by the joining rule is rewriting it by the rule and
then merging, with as many changes. -/
def MergeCommutes (confirmed : List String) (scope : Scope) (phrase : Phrase) : Prop :=
  (TagForm.joined confirmed).rewritePhrase scope phrase.merge =
    (((TagForm.rule confirmed).rewritePhrase scope phrase).1.merge,
      ((TagForm.rule confirmed).rewritePhrase scope phrase).2)

section Commutes

variable {confirmed : List String} {tags : BlockTags} {body : List Statement}
  {inverse : Option Program}

theorem mergeCommutes_content : MergeCommutes confirmed scope (.content body) ↔
    (TagForm.joined confirmed).rewriteBody scope (mergeBody body) =
      (mergeBody ((TagForm.rule confirmed).rewriteBody scope body).1,
        ((TagForm.rule confirmed).rewriteBody scope body).2) := by
  simp only [MergeCommutes, Phrase.merge, Rule.rewritePhrase, Prod.ext_iff, Phrase.content.injEq]

theorem mergeCommutes_inverse : MergeCommutes confirmed scope (.inverse tags inverse) ↔
    (TagForm.joined confirmed).rewriteInverse scope (mergeInverse inverse) =
      (mergeInverse ((TagForm.rule confirmed).rewriteInverse scope inverse).1,
        ((TagForm.rule confirmed).rewriteInverse scope inverse).2) := by
  simp only [MergeCommutes, Phrase.merge, Rule.rewritePhrase, Prod.ext_iff, Phrase.inverse.injEq,
    true_and]

/-- A statement in front of a body. -/
theorem mergeCommutes_cons
    (first : (TagForm.joined confirmed).rewrite scope statement.merge =
      (((TagForm.rule confirmed).rewrite scope statement).1.merge,
        ((TagForm.rule confirmed).rewrite scope statement).2))
    (more : MergeCommutes confirmed scope (.content body)) :
    MergeCommutes confirmed scope (.content (statement :: body)) := by
  rw [mergeCommutes_content] at more ⊢
  rw [mergeBody, (respelling_joined confirmed []).rewriteBody_joinText, first, more,
    Rule.rewriteBody_cons, mergeBody]

end Commutes

theorem mergeCommutes_of_regular {phrase : Phrase} (regular : Regular phrase)
    (confirmed : List String) : ∀ scope, MergeCommutes confirmed scope phrase := by
  induction regular with
  | nil =>
    intro scope
    rw [mergeCommutes_content, mergeBody, Rule.rewriteBody, Rule.rewriteBody, mergeBody]
  | leaf isLeaf more inMore =>
    intro scope
    refine mergeCommutes_cons ?_ (inMore scope)
    rw [Rule.rewrite_leaf _ scope isLeaf, ← replaced_merge, Statement.merge_of_isLeaf isLeaf,
      Rule.rewrite_leaf _ scope isLeaf]
  | @element tags children body content more inContent inMore =>
    intro scope
    have inside := mergeCommutes_content.mp (inContent (scope.within tags.params))
    have same := replaced_merge confirmed scope (.element tags
      ((TagForm.rule confirmed).rewriteBody (scope.within tags.params) children).1)
    rw [Statement.merge] at same
    refine mergeCommutes_cons ?_ (inMore scope)
    rw [Statement.merge, Rule.rewrite_element, inside, Rule.rewrite_element]
    simp only [same]
  | @block tags program body params chained inverse content others more inContent inOthers inMore =>
    intro scope
    have inside := mergeCommutes_content.mp (inContent (scope.within params))
    have behind := mergeCommutes_inverse.mp (inOthers scope)
    have same := replaced_merge confirmed scope (.block tags
      ⟨((TagForm.rule confirmed).rewriteBody (scope.within params) program).1, params, chained⟩
      ((TagForm.rule confirmed).rewriteInverse scope inverse).1)
    rw [Statement.merge, Program.merge] at same
    refine mergeCommutes_cons ?_ (inMore scope)
    rw [Statement.merge, Program.merge, Rule.rewrite_block _ scope rfl, inside, behind,
      Rule.rewrite_block _ scope rfl]
    simp only [same]
  | noInverse =>
    intro scope
    rw [mergeCommutes_inverse, mergeInverse, Rule.rewriteInverse, Rule.rewriteInverse, mergeInverse]
  | @elseBody tags body params content inContent =>
    intro scope
    have inside := mergeCommutes_content.mp (inContent (scope.within params))
    rw [mergeCommutes_inverse, mergeInverse, Program.merge, Rule.rewriteInverse_else, inside,
      Rule.rewriteInverse_else, mergeInverse, Program.merge]
  | @elseBlock tags chained program params bound continued inverse content others inContent
      inOthers =>
    intro scope
    have inside := mergeCommutes_content.mp (inContent (scope.within params))
    have behind := mergeCommutes_inverse.mp (inOthers scope)
    rw [mergeCommutes_inverse, mergeInverse_chain, Rule.rewriteInverse_chain, inside, behind,
      Rule.rewriteInverse_chain, mergeInverse_chain]

/-- What is read has no texts to merge. -/
theorem Spelling.merge {next : Option Char} {offset : Nat} {text : List Char} {phrase : Phrase}
    (spelling : Spelling next offset text phrase) : phrase.merge = phrase := by
  induction spelling with
  | nil => rfl
  | @text next offset run rest body nonempty isRun ended more inMore =>
    have same : mergeBody body = body := Phrase.content.inj inMore
    rw [Phrase.merge, mergeBody, same, joinText_of_ended ended]
    rfl
  | @single next offset piece rest statement body takes more inMore =>
    have same : mergeBody body = body := Phrase.content.inj inMore
    rw [Phrase.merge, mergeBody, same]
    cases single_yields.property takes <;> rfl
  | @element next offset opening inside closing rest tag start children body starts open' content
      ends more inContent inMore =>
    have same : mergeBody body = body := Phrase.content.inj inMore
    have sameInside : mergeBody children = children := Phrase.content.inj inContent
    rw [Phrase.merge, mergeBody, same, Statement.merge, sameInside]
    rfl
  | @block next offset start inside tail closing rest opening elseTrim closeTrim elseSpan program
      body inverse starts content others ends more inContent inOthers inMore =>
    have same : mergeBody body = body := Phrase.content.inj inMore
    have sameInside : mergeBody program = program := Phrase.content.inj inContent
    have sameBehind : mergeInverse inverse = inverse := (Phrase.inverse.inj inOthers).2
    rw [Phrase.merge, mergeBody, same, Statement.merge, Program.merge, sameInside, sameBehind]
    rfl
  | noInverse => rfl
  | @elseBody offset piece inside tags body starts elseSpan content inContent =>
    have sameInside : mergeBody body = body := Phrase.content.inj inContent
    rw [Phrase.merge, mergeInverse, Program.merge, sameInside]
  | @elseBlock offset start inside tail tags opening elseTrim elseSpan program inverse noElseTrim
      noElseSpan starts content others inContent inOthers =>
    have sameInside : mergeBody program = program := Phrase.content.inj inContent
    have sameBehind : mergeInverse inverse = inverse := (Phrase.inverse.inj inOthers).2
    rw [Phrase.merge, mergeInverse_chain, sameInside, sameBehind]

end Merging

end Reader

end TagMigration
