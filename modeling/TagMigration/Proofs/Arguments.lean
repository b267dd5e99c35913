/-
Named arguments in tags. A key may hold characters that end the name of an attribute, and a value
may begin with a mark that makes a curly tag something else than an inline tag. So an invocation
that becomes a tag is not always read again. Its tag is printed, and what is printed is read as that
tag, with the same arguments in the same order, exactly if every argument fits.
-/
import TagMigration.Proofs.Replacement

namespace TagMigration

namespace Reader

/-! ### What the text of an argument begins with -/

/-- A path begins with what its name begins with. -/
theorem head?_of_name? {cursor after : Cursor} {value : Expression} {name : String}
    (success : expression cursor = .ok (value, after)) (isName : value.name? = some name) :
    cursor.rest.head? = name.toList.head? := by
  obtain ⟨rest, equal, nonempty, -⟩ := expressionWithin_name success isName
  rw [equal, head?_append_left nonempty]

/-- The value of an argument prints as a text, which for a path begins as its name does. -/
theorem IsGiven.exists_written {source : List Char} {argument : NamedArgument}
    (given : IsGiven source argument) :
    ∃ inner, argument.value.print source = .ok inner ∧
      ∀ name ∈ argument.value.name?, inner.head? = name.toList.head? := by
  obtain ⟨⟨offset, text⟩, after, stands, success⟩ := given.value
  obtain ⟨used, rest, rfl, someUsed, -, span, -⟩ :=
    expression_rereads text.length _ _ _ _ success
  refine ⟨used, ?_, fun name isName => ?_⟩
  · rw [Expression.print_of_span span]
    exact stands.left.copySpan
  · rw [← head?_of_name? success isName, head?_append_left someUsed]

/-! ### Attributes that are read under their names -/

/-- No inline tag begins with a mark behind its braces. -/
theorem unmarked_of_mustache {offset : Nat} {inner rest : List Char} {result : Mustache × Cursor}
    (success : mustache ⟨offset, inlineText openBraces false false inner ++ rest⟩ = .ok result) :
    inner.head? ∉ [some '#', some '!', some '/'] := by
  intro mark
  obtain ⟨char, isHead, marks⟩ : ∃ char, inner.head? = some char ∧ char ∈ ['#', '!', '/'] := by
    simp only [List.mem_cons, List.not_mem_nil, or_false] at mark
    rcases mark with mark | mark | mark <;> exact ⟨_, mark, by decide⟩
  obtain ⟨letters, rfl⟩ := List.head?_eq_some_iff.mp isHead
  have refused : mustache ⟨offset, inlineText openBraces false false (char :: letters) ++ rest⟩ =
      fault offset .notInline := by
    simp only [List.mem_cons, List.not_mem_nil, or_false] at marks
    rcases marks with rfl | rfl | rfl <;> rfl
  rw [refused] at success
  cases success

/-- An argument fits if it is read as an attribute with its key. If the key held a character that
ends the name of an attribute, the name would be shorter; and the value is read as an inline tag. -/
theorem fitsTag_of_attr {inner rest : List Char} {argument : NamedArgument} {tag : String}
    {offset : Nat} {first : Attribute} {after : Cursor}
    (begins : ∀ name ∈ argument.value.name?, inner.head? = name.toList.head?)
    (success : attr tag ⟨offset, attributeText argument.key.toList inner ++ rest⟩ =
      .ok (first, after))
    (named : first.name = "@" ++ argument.key) : argument.FitsTag := by
  have run : (attributeText argument.key.toList inner ++ rest).takeWhile isAttributeChar =
      '@' :: argument.key.toList := by
    rw [(attr_eq_ok success).1, ← String.toList_inj, String.toList_ofList, String.toList_append]
      at named
    exact named
  have isName : ∀ char ∈ '@' :: argument.key.toList, isAttributeChar char = true := by
    rw [← run]
    exact List.all_eq_true.mp List.all_takeWhile
  have inKey {char : Char} (ends : isAttributeChar char = false) : char ∉ argument.key.toList := by
    intro member
    rw [isName char (List.mem_cons_of_mem _ member)] at ends
    cases ends
  refine ⟨inKey (by decide), inKey (by decide), fun name isPath => ?_⟩
  rw [← begins name isPath]
  have same : attributeText argument.key.toList inner ++ rest = '@' :: argument.key.toList ++
      ([] ++ '=' :: (inlineText openBraces false false inner ++ rest)) := by
    simp [attributeText]
  rw [same, attr_eq tag offset (List.cons_ne_nil _ _) isName (halts_cons.mpr (by decide))
    (List.forall_mem_nil _) (halts_cons.mpr (by decide)), eat?_single, List.head?_cons,
    if_pos rfl] at success
  obtain ⟨⟨value, last⟩, readValue, -⟩ := bind_eq_ok success
  have braced : Halts isBlank (inlineText openBraces false false inner ++ rest) :=
    halts_cons.mpr (by decide)
  rw [List.tail_cons, Cursor.skipBlanks_of_halts _ braced] at readValue
  obtain ⟨result, readShown, -⟩ := bind_eq_ok (show (mustache _ >>= _) = _ from readValue)
  exact unmarked_of_mustache readShown

/-- The arguments print as attributes, and these are read under the keys of the arguments only if
the arguments fit. Every attribute that fits is read up to the next one. -/
theorem exists_attributeTexts {source : List Char} : ∀ {named : List NamedArgument},
    (∀ argument ∈ named, IsGiven source argument) →
    ∃ text, printAttributes source (named.map NamedArgument.toAttribute) = .ok text ∧
      Spaced text ∧ ∀ {tag begin size offset rest start after},
        startTag tag begin size ⟨offset, text ++ rest⟩ = .ok (start, after) →
        start.attributes.map Attribute.name = named.map (fun argument => "@" ++ argument.key) →
        ∀ argument ∈ named, argument.FitsTag
  | [], _ => ⟨[], by rw [List.map_nil, printAttributes], .inl rfl, fun _ _ => List.forall_mem_nil _⟩
  | argument :: named, given => by
    obtain ⟨here, others⟩ := List.forall_mem_cons.mp given
    obtain ⟨inner, printsValue, begins⟩ := here.exists_written
    obtain ⟨text, printsMore, -, fitsMore⟩ := exists_attributeTexts others
    have printsHere := print_toAttribute_eq printsValue
    refine ⟨' ' :: attributeText argument.key.toList inner ++ text, ?_, .inr ⟨_, rfl⟩,
      fun {tag begin size offset rest start after} success names => ?_⟩
    · rw [List.map_cons, printAttributes, printsHere, printsMore]
      rfl
    have same : ' ' :: attributeText argument.key.toList inner ++ text ++ rest =
        [' '] ++ (attributeText argument.key.toList inner ++ (text ++ rest)) := by
      simp
    cases size with
    | zero => cases success
    | succ size =>
      have halts : Halts isBlank (attributeText argument.key.toList inner ++ (text ++ rest)) :=
        halts_cons.mpr (by decide)
      rw [same, startTag_blank size (List.forall_mem_singleton.mpr (by decide)) halts,
        startTag_succ size halts] at success
      obtain ⟨⟨first, afterFirst⟩, readFirst, success⟩ := bind_eq_ok success
      obtain ⟨⟨more, last⟩, readMore, success⟩ := bind_eq_ok success
      cases success
      obtain ⟨nameHere, namesMore⟩ := List.cons.inj names
      have fits := fitsTag_of_attr begins readFirst nameHere
      obtain ⟨letters, printsAgain, takes⟩ := here.exists_attribute fits
      have sameText : attributeText argument.key.toList inner = '@' :: letters :=
        Except.ok.inj (printsHere.symm.trans printsAgain)
      obtain ⟨copy, takesHere, -⟩ := takes tag (offset + byteSize [' '])
      rw [sameText, takesHere] at readFirst
      cases readFirst
      exact List.forall_mem_cons.mpr ⟨fits, fitsMore readMore namesMore⟩

/-! ### Tags that are read again -/

/-- What is read as a tag that closes itself begins with a start tag. -/
theorem exists_start_of_alike {text : List Char} {tags : ElementTags} {copy : Statement}
    (selfClosing : tags.selfClosing = true)
    (spelling : Spelling none 0 text (.content [copy]))
    (alike : copy.mapSpans eraseSpan = (Statement.element tags []).mapSpans eraseSpan) :
    ∃ start, Takes elementStart 0 text (tags.tag, start) ∧
      start.attributes.map Attribute.name = tags.attributes.map Attribute.name := by
  have names (attributes : List Attribute) :
      (attributes.map (Attribute.mapSpans eraseSpan)).map Attribute.name =
        attributes.map Attribute.name := by
    rw [List.map_map]
    rfl
  cases spelling with
  | text => cases alike
  | single takes more =>
    cases more
    rw [List.append_nil]
    cases single_yields.property takes with
    | @element own span startSpan endSpan alone start =>
      obtain ⟨start, takesStart, isAttributes, -⟩ := start
      obtain ⟨sameTags, -⟩ := Statement.element.inj alike
      have sameTag : own.tag = tags.tag :=
        show (own.mapSpans eraseSpan).tag = (tags.mapSpans eraseSpan).tag by rw [sameTags]
      have sameAttributes := congrArg ElementTags.attributes sameTags
      refine ⟨start, sameTag ▸ takesStart, ?_⟩
      rw [← isAttributes, ← names, ← names tags.attributes]
      exact congrArg (List.map Attribute.name) sameAttributes
    | _ => cases alike
  | @element _ _ _ _ _ _ tag start children _ starts open' content ends more =>
    obtain ⟨sameTags, -⟩ := Statement.element.inj alike
    have closes : start.selfClosing = tags.selfClosing :=
      congrArg ElementTags.selfClosing sameTags
    rw [closes, selfClosing] at open'
    cases open'
  | block => cases alike

/-- Behind its name, a start tag is read piece by piece. -/
theorem startTag_of_takes {tag : String} {inside : List Char} {start : StartTag}
    (isTagName : IsTagName tag)
    (halts : Halts (fun char => !isBlank char && char != '/' && char != '>') inside)
    (takes : Takes elementStart 0 ('<' :: (tag.toList ++ inside)) (tag, start)) :
    ∃ after, startTag tag 0 inside.length ⟨0 + byteSize ['<'] + byteSize tag.toList, inside⟩ =
      .ok (start, after) := by
  have skipped : (⟨0, '<' :: (tag.toList ++ inside)⟩ : Cursor).skip 1 =
      ⟨0 + byteSize ['<'], tag.toList ++ inside⟩ :=
    Cursor.skip_append 0 ['<'] _
  have success := takes []
  rw [elementStart, if_pos (startsElement_of_takes takes []), List.append_nil] at success
  simp only [skipped, isTagName.tagName? halts, Cursor.skip_append, String.ofList_toList] at success
  obtain ⟨⟨found, last⟩, readStart, success⟩ := bind_eq_ok success
  cases success
  exact ⟨_, readStart⟩

/-- A tag that closes itself is built from arguments. Its text is read as that tag, up to spans,
exactly if the arguments fit. -/
theorem exists_tagText {source : List Char} {tag : String} {named : List NamedArgument}
    (isTagName : IsTagName tag) (given : ∀ argument ∈ named, IsGiven source argument) :
    let element := Build.element tag (named.map NamedArgument.toAttribute) [] true []
    ∃ text, element.print source = .ok text ∧
      ((∃ copy, Spelling none 0 text (.content [copy]) ∧
        copy.mapSpans eraseSpan = element.mapSpans eraseSpan) ↔
        ∀ argument ∈ named, argument.FitsTag) := by
  intro element
  obtain ⟨attributes, printsAttributes, spaced, fits⟩ := exists_attributeTexts given
  have printsStart := ElementTags.printStart_built printsAttributes tag [] true
  have prints := @Statement.print_selfClosing _ _ ⟨tag, named.map NamedArgument.toAttribute, [], [],
    true, none, none, none⟩ [] rfl printsStart
  refine ⟨_, prints, ?_, fun fit => ?_⟩
  · rintro ⟨copy, spelling, alike⟩
    obtain ⟨start, takes, names⟩ := exists_start_of_alike rfl spelling alike
    have same : '<' :: tag.toList ++ attributes ++ [] ++ printParams [] ++ " />".toList =
        '<' :: (tag.toList ++ (attributes ++ " />".toList)) := by
      simp [printParams]
    rw [if_pos rfl, same] at takes
    obtain ⟨after, readStart⟩ :=
      startTag_of_takes isTagName (spaced.halts rfl (halts_cons.mpr rfl)) takes
    refine fits readStart ?_
    rw [names, List.map_map]
    rfl
  · obtain ⟨text, again⟩ := Reader.exists_tagReadsBack isTagName
      (fun argument member => ⟨given argument member, fit argument member⟩) (List.forall_mem_nil _)
      true
    obtain ⟨start, takes, alike⟩ := again.reads 0
    obtain rfl : _ = text := Except.ok.inj (printsStart.symm.trans again.prints)
    have closed : start.selfClosing = true := congrArg StartTag.selfClosing alike
    have spelling := Spelling.single (takes_alone takes (by rw [closed]; rfl)) (.nil none _)
    rw [List.append_nil] at spelling
    refine ⟨_, spelling, ?_⟩
    exact congrArg (Statement.element · []) (StartTag.alike_tags alike tag ..)

/-- The named arguments of an inline tag that was read were read. -/
theorem ReadFrom.isGiven {source : List Char} {invocation : Mustache} {chained : Bool}
    (readFrom : ReadFrom source ⟨.mustache invocation, chained⟩) :
    ∀ argument ∈ invocation.call.named, IsGiven source argument := by
  cases readFrom with
  | own stands span spelling =>
    cases spelling with
    | single takes more =>
      cases more
      cases single_yields.property takes with
      | mustache isMustache => exact mustache_given stands (isMustache.takes [])
  | chained stands span spelling => cases spelling

end Reader

/-! ### What becomes of the arguments of an inline tag -/

/-- An inline tag that migrating replaces gives way to a tag that closes itself. Its attributes show
the named arguments, each under its key and in their order. The tag is printed, and its text, read
as a template of its own, is that tag up to spans, exactly if no key holds a slash or a closing
angle bracket and no value is a path that begins with one of the marks `#`, `!` and `/`. -/
theorem migrate_inline (source identity other : String) (template : Template)
    (confirmed : List String) (site : Site) (invocation : Mustache) (element : Statement)
    (read : Template.read source identity = .ok template) (member : site ∈ template.sites)
    (isInline : site.node.statement = .mustache invocation)
    (replaces : (TagForm.rule confirmed).replace? site.scope site.node.statement = some element) :
    ∃ tag text, element.print source.toList = .ok text ∧
      element = .element ⟨tag, invocation.call.named.map fun argument =>
        ⟨"@" ++ argument.key, .mustache ⟨⟨argument.value, [], []⟩, false, .none, none⟩, none⟩,
        [], [], true, none, none, none⟩ [] ∧
      ((∃ copy, Template.read (String.ofList text) other =
          .ok ⟨other, String.ofList text, [copy]⟩ ∧
        copy.mapSpans eraseSpan = element.mapSpans eraseSpan) ↔
        ∀ argument ∈ invocation.call.named, argument.FitsTag) := by
  have stays : site.Stays confirmed .empty (.content template.body) :=
    (Template.orderly_of_read read).regular.sites_stay .empty site member
  have readFrom := Template.readFrom_of_read read site.node stays.before
  obtain ⟨scope, statement, chained⟩ := site
  obtain rfl : statement = .mustache invocation := isInline
  obtain ⟨tag, isTag, becomes⟩ := TagForm.replace?_eq_some.mp replaces
  obtain rfl := Option.some.inj becomes
  obtain ⟨text, prints, reread⟩ :=
    Reader.exists_tagText (TagForm.isTagName_of_tag? isTag) readFrom.isGiven
  refine ⟨tag, text, prints, rfl, Iff.trans (exists_congr fun copy => and_congr_left fun _ => ?_)
    reread⟩
  rw [Template.read_eq_ok]
  simp only [Template.mk.injEq, true_and, exists_eq_left', String.toList_ofList]

/-- An inline tag whose arguments fit. -/
def fittingSource : String := "\x7b\x7bfoo a=(f 1) b-c=\"#\"\x7d\x7d"

/-- The tag that it becomes. -/
def fittingText : String := "<Foo @a=\x7b\x7b(f 1)\x7d\x7d @b-c=\x7b\x7b\"#\"\x7d\x7d />"

theorem migrate_inline_fittingSource : ∃ template site invocation element copy,
    Template.read fittingSource "a.hbs" = .ok template ∧ site ∈ template.sites ∧
      site.node.statement = .mustache invocation ∧
      invocation.call.named.map NamedArgument.key = ["a", "b-c"] ∧
      (TagForm.rule ["foo"]).replace? site.scope site.node.statement = some element ∧
      element.print fittingSource.toList = .ok fittingText.toList ∧
      Template.read fittingText "b.hbs" = .ok ⟨"b.hbs", fittingText, [copy]⟩ ∧
      copy.mapSpans eraseSpan = element.mapSpans eraseSpan := by
  have succeeds : ((Template.read fittingSource "a.hbs").toOption.any fun template =>
      decide ((template.sites.any fun site =>
        match site.node.statement with
        | .mustache invocation => decide (invocation.call.named.map NamedArgument.key = ["a", "b-c"] ∧
          (∀ argument ∈ invocation.call.named, argument.FitsTag) ∧
          (((TagForm.rule ["foo"]).replace? site.scope site.node.statement).any fun element =>
            decide (element.print fittingSource.toList = .ok fittingText.toList)) = true)
        | _ => false) = true)) = true := by
    decide +kernel
  obtain ⟨template, read, found⟩ := Template.exists_of_read succeeds
  obtain ⟨site, member, holds⟩ := List.any_eq_true.mp found
  split at holds
  · next invocation isInline =>
    obtain ⟨keys, fit, isReplaced⟩ := of_decide_eq_true holds
    obtain ⟨element, replaces, written⟩ := (Option.any_eq_true _ _).mp isReplaced
    obtain ⟨tag, text, prints, -, reread⟩ := migrate_inline fittingSource "a.hbs" "b.hbs" template
      ["foo"] site invocation element read member isInline replaces
    obtain rfl : text = fittingText.toList :=
      Except.ok.inj (prints.symm.trans (of_decide_eq_true written))
    obtain ⟨copy, again, alike⟩ := reread.mpr fit
    rw [String.ofList_toList] at again
    exact ⟨template, site, invocation, element, copy, read, member, isInline, keys, replaces,
      prints, again, alike⟩
  · cases holds

/-- An inline tag with a key that ends the name of an attribute. -/
def slashedSource : String := "\x7b\x7bfoo a/b=1\x7d\x7d"

/-- The text that it becomes. -/
def slashedText : String := "<Foo @a/b=\x7b\x7b1\x7d\x7d />"

/-- A migrated template is printed that cannot be read. -/
theorem migrate_slashedSource : ∃ template,
    Template.read slashedSource "a.hbs" = .ok template ∧
      (template.migrate ["foo"]).changes = 1 ∧
      (template.migrate ["foo"]).template.print = .ok slashedText ∧
      ∀ again, Template.read slashedText "a.hbs" ≠ .ok again := by
  have succeeds : ((Template.read slashedSource "a.hbs").toOption.any fun template =>
      decide ((template.migrate ["foo"]).changes = 1 ∧
        (template.migrate ["foo"]).template.print = .ok slashedText)) = true := by
    decide +kernel
  obtain ⟨template, read, changes, prints⟩ := Template.exists_of_read succeeds
  have refused : (Template.read slashedText "a.hbs").toBool = false := by decide +kernel
  refine ⟨template, read, changes, prints, fun again reads => ?_⟩
  rw [reads] at refused
  cases refused

end TagMigration
