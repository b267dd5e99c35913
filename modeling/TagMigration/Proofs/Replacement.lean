/-
What migrating replaces. An ambiguous invocation becomes a tag if its name is confirmed and has a
tag name, and if it has no positional argument, no `~` marker on any of its tags and no inverse.
Migrating a template that was read is a plain recursion on what stripping leaves of it, and the
number of changes is the number of such invocations. A node that stripping keeps is a node of the
migrated template, and is printed as its slice of the source, unless there is a conditional or
such an invocation in it.
-/
import TagMigration.Proofs.Ambiguity
import TagMigration.Proofs.Batches
import TagMigration.Proofs.Migrated

namespace TagMigration

/-! ### Invocations that have a tag form -/

/-- A call whose tags carry the given `~` markers can be written as a tag, if its name is that
one. -/
structure TagForm.Expressible (confirmed : List String) (call : Call) (trims : List Trim)
    (name tag : String) : Prop where
  isConfirmed : name ∈ confirmed
  noPositional : call.positional = []
  untrimmed : ∀ trim ∈ trims, trim = .none
  hasTag : TagName.ofName? name = some tag

/-- Where the given names are bound, a statement becomes an element. An inline tag becomes an empty
one; a block without an inverse becomes one that binds what the block binds and begins with a new
line. Each named argument is an attribute that shows its value, and no part of the element has a
span. -/
inductive TagForm.Becomes (confirmed bound : List String) : Statement → Statement → Prop where
  | inline {invocation : Mustache} {name tag : String}
    (isAmbiguous : Statement.Ambiguous bound name (.mustache invocation))
    (expressible : Expressible confirmed invocation.call [invocation.trim] name tag) :
    Becomes confirmed bound (.mustache invocation)
      (.element ⟨tag, invocation.call.named.map fun argument =>
        ⟨"@" ++ argument.key, .mustache ⟨⟨argument.value, [], []⟩, false, .none, none⟩, none⟩,
        [], [], true, none, none, none⟩ [])
  | block {tags : BlockTags} {program : Program} {name tag : String}
    (isAmbiguous : Statement.Ambiguous bound name (.block tags program none))
    (expressible : Expressible confirmed tags.call [tags.openTrim, tags.elseTrim, tags.closeTrim]
      name tag) :
    Becomes confirmed bound (.block tags program none)
      (.element ⟨tag, tags.call.named.map fun argument =>
        ⟨"@" ++ argument.key, .mustache ⟨⟨argument.value, [], []⟩, false, .none, none⟩, none⟩,
        [], program.params, false, none, none, none⟩ (.text ⟨"\n", none⟩ :: program.body))

theorem Trim.any_eq_false {trim : Trim} : trim.any = false ↔ trim = .none := by
  obtain ⟨before, after⟩ := trim
  simp [any, none]

/-- The tests for a tag, one after the other. -/
theorem TagForm.tag?_eq_some {confirmed : List String} {scope : Scope} {statement : Statement}
    {tag : String} :
    tag? confirmed scope statement = some tag ↔ ∃ invocation name,
      statement.invocation? = some invocation ∧ statement.Ambiguous scope.names name ∧
        Expressible confirmed invocation.call invocation.trims name tag := by
  have fits {invocation : Invocation} :
      (!invocation.call.positional.isEmpty || invocation.isTrimmed) = false ↔
        invocation.call.positional = [] ∧ ∀ trim ∈ invocation.trims, trim = .none := by
    simp only [Bool.or_eq_false_iff, Bool.not_eq_false', List.isEmpty_iff, Invocation.isTrimmed,
      List.any_eq_false, Bool.not_eq_true, Trim.any_eq_false]
  rw [tag?, Option.bind_eq_bind, Option.bind_eq_some_iff]
  constructor
  · rintro ⟨invocation, invoked, found⟩
    split at found
    · cases found
    · next fit =>
      obtain ⟨noPositional, untrimmed⟩ := fits.mp (Bool.eq_false_iff.mpr fit)
      obtain ⟨name, isName, found⟩ := Option.bind_eq_some_iff.mp found
      split at found
      · next isConfirmed =>
        exact ⟨invocation, name, invoked, Probe.ambiguousName?_eq_some.mp isName,
          List.contains_iff_mem.mp isConfirmed, noPositional, untrimmed, found⟩
      · cases found
  · rintro ⟨invocation, name, invoked, isAmbiguous, isConfirmed, noPositional, untrimmed, hasTag⟩
    refine ⟨invocation, invoked, ?_⟩
    rw [if_neg (Bool.eq_false_iff.mp (fits.mpr ⟨noPositional, untrimmed⟩)),
      Probe.ambiguousName?_eq_some.mpr isAmbiguous]
    show (if confirmed.contains name = true then TagName.ofName? name else none) = some tag
    rw [if_pos (List.contains_iff_mem.mpr isConfirmed), hasTag]

/-- Migrating replaces the invocations that have a tag form, and replaces nothing else. -/
theorem TagForm.replace?_iff_becomes {confirmed : List String} {scope : Scope}
    {statement replacement : Statement} :
    (TagForm.rule confirmed).replace? scope statement = some replacement ↔
      Becomes confirmed scope.names statement replacement := by
  rw [replace?_eq_some]
  simp only [tag?_eq_some]
  constructor
  · rintro ⟨tag, ⟨invocation, name, invoked, isAmbiguous, expressible⟩, becomes⟩
    rcases element?_cases becomes with ⟨_, rfl, rfl⟩ | ⟨_, _, _, _, rfl, rfl⟩
    · cases invoked
      exact .inline isAmbiguous expressible
    · cases invoked
      exact .block isAmbiguous expressible
  · rintro (⟨isAmbiguous, expressible⟩ | ⟨isAmbiguous, expressible⟩)
    · exact ⟨_, ⟨_, _, rfl, isAmbiguous, expressible⟩, rfl⟩
    · exact ⟨_, ⟨_, _, rfl, isAmbiguous, expressible⟩, rfl⟩

/-! ### The number of changes -/

/-- Whether migrating replaces a statement in its scope. -/
def Occurrence.isReplaced (confirmed : List String) (occurrence : Occurrence) : Bool :=
  ((TagForm.rule confirmed).replace? occurrence.scope occurrence.statement).isSome

section Count

variable {confirmed : List String} {scope : Scope}

theorem replaced_count (statement : Statement) :
    ((TagForm.rule confirmed).replaced scope statement).2 =
      if Occurrence.isReplaced confirmed ⟨scope, statement⟩ = true then 1 else 0 := by
  rw [Rule.replaced, Occurrence.isReplaced]
  cases (TagForm.rule confirmed).replace? scope statement <;> rfl

/-- A statement in front of a body: what it holds is counted, and then the statement itself. -/
theorem rewrite_count_cons {statement : Statement} {body : List Statement}
    (here : ((TagForm.rule confirmed).rewrite scope statement).2 =
      (statement.occurrences scope).countP (Occurrence.isReplaced confirmed) +
        if Occurrence.isReplaced confirmed ⟨scope, statement⟩ = true then 1 else 0)
    (more : ((TagForm.rule confirmed).rewritePhrase scope (.content body)).2 =
      ((Phrase.content body).occurrences scope).countP (Occurrence.isReplaced confirmed)) :
    ((TagForm.rule confirmed).rewritePhrase scope (.content (statement :: body))).2 =
      ((Phrase.content (statement :: body)).occurrences scope).countP
        (Occurrence.isReplaced confirmed) := by
  rw [Rule.rewritePhrase, Phrase.occurrences] at more ⊢
  rw [Rule.rewriteBody_cons, bodyOccurrences, List.countP_cons, List.countP_append, here, more]
  exact Nat.add_right_comm ..

/-- Every statement that migrating replaces counts once. Whether it is replaced does not depend on
what has become of its content. -/
theorem Regular.rewrite_count {phrase : Phrase} (regular : Regular phrase)
    (confirmed : List String) : ∀ scope,
    ((TagForm.rule confirmed).rewritePhrase scope phrase).2 =
      (phrase.occurrences scope).countP (Occurrence.isReplaced confirmed) := by
  induction regular with
  | nil =>
    intro scope
    rw [Rule.rewritePhrase, Rule.rewriteBody, Phrase.occurrences, bodyOccurrences, List.countP_nil]
  | @leaf statement body isLeaf more countMore =>
    intro scope
    refine rewrite_count_cons ?_ (countMore scope)
    have noneInside : statement.occurrences scope = [] := by
      cases statement <;> first | rfl | cases isLeaf
    rw [Rule.rewrite_leaf _ scope isLeaf, replaced_count, noneInside, List.countP_nil, Nat.zero_add]
  | @element tags children body content more countContent countMore =>
    intro scope
    refine rewrite_count_cons ?_ (countMore scope)
    have inside := countContent (scope.within tags.params)
    rw [Rule.rewritePhrase, Phrase.occurrences] at inside
    have notHere : Occurrence.isReplaced confirmed ⟨scope, .element tags children⟩ = false :=
      congrArg Option.isSome (TagForm.rule_onInvocations confirmed scope (.element ..) rfl)
    rw [TagForm.rewrite_element, Statement.occurrences, notHere, ← inside]
    rfl
  | @block tags program body params chained inverse content others more countContent countOthers
      countMore =>
    intro scope
    refine rewrite_count_cons ?_ (countMore scope)
    have inside := countContent (scope.within params)
    have behind := countOthers scope
    simp only [Rule.rewritePhrase, Phrase.occurrences] at inside behind
    have same : Occurrence.isReplaced confirmed ⟨scope, .block tags
        ⟨((TagForm.rule confirmed).rewriteBody (scope.within params) program).1, params, chained⟩
        ((TagForm.rule confirmed).rewriteInverse scope inverse).1⟩ =
        Occurrence.isReplaced confirmed ⟨scope, .block tags ⟨program, params, chained⟩ inverse⟩ :=
      TagForm.isSome_replace?_block confirmed scope tags _ _
        ((TagForm.rule confirmed).isSome_rewriteInverse scope inverse)
    rw [TagForm.rewrite_block]
    simp only [replaced_count, same]
    rw [Statement.occurrences, Program.occurrences, List.countP_append, inside, behind]
  | noInverse =>
    intro scope
    rw [Rule.rewritePhrase, Rule.rewriteInverse, Phrase.occurrences, inverseOccurrences,
      List.countP_nil]
  | @elseBody tags body params content countContent =>
    intro scope
    rw [Rule.rewritePhrase, Rule.rewriteInverse_else, Phrase.occurrences, inverseOccurrences]
    exact countContent (scope.within params)
  | @elseBlock tags chained program params bound continued inverse content others countContent
      countOthers =>
    intro scope
    have inside := countContent (scope.within params)
    have behind := countOthers scope
    simp only [Rule.rewritePhrase, Phrase.occurrences] at inside behind
    rw [Phrase.occurrences, inverseOccurrences_chain, List.countP_append]
    simp only [Rule.rewritePhrase, Rule.rewriteInverse_chain, inside, behind]

end Count

/-! ### Nodes that are kept -/

/-- A node of a tree, with the names that are bound around it. -/
structure Site where
  scope : Scope
  node : Node

mutual

/-- The nodes in a statement that stripping keeps. -/
def Statement.sites (scope : Scope) : Statement → List Site
  | .block _ program inverse => program.sites scope ++ inverseSites scope inverse
  | .element tags children => bodySites (scope.within tags.params) children
  | .text _ => []
  | .mustache _ => []
  | .comment _ => []
  | .curlyComment _ => []

/-- The nodes in a body that stripping keeps: of a conditional, those in its first branch. -/
def bodySites (scope : Scope) : List Statement → List Site
  | [] => []
  | .block tags program inverse :: rest =>
    if Probe.isWrapper tags program inverse then program.sites scope ++ bodySites scope rest
    else ⟨scope, .block tags program inverse, false⟩ ::
      (program.sites scope ++ inverseSites scope inverse ++ bodySites scope rest)
  | statement :: rest =>
    ⟨scope, statement, false⟩ :: (statement.sites scope ++ bodySites scope rest)

/-- The nodes in a program that stripping keeps. -/
def Program.sites (scope : Scope) : Program → List Site
  | ⟨body, params, _⟩ => bodySites (scope.within params) body

/-- The nodes in an inverse that stripping keeps. -/
def inverseSites (scope : Scope) : Option Program → List Site
  | none => []
  | some ⟨body, _, true⟩ => chainSites scope body
  | some ⟨body, params, false⟩ => bodySites (scope.within params) body

/-- The nodes in the body of a chained inverse that stripping keeps. -/
def chainSites (scope : Scope) : List Statement → List Site
  | [] => []
  | statement :: rest =>
    ⟨scope, statement, true⟩ :: (statement.sites scope ++ chainSites scope rest)

end

/-- The nodes of a template that stripping keeps. -/
def Template.sites (template : Template) : List Site :=
  bodySites .empty template.body

/-- The nodes of a phrase that stripping keeps. -/
def Phrase.sites (scope : Scope) : Phrase → List Site
  | .content body => bodySites scope body
  | .inverse _ others => inverseSites scope others

/-- The statements at a site: the block of a chained `else` is reached through what it continues,
and only what it holds counts. -/
def Site.occurrences (site : Site) : List Occurrence :=
  if site.node.chained then site.node.statement.occurrences site.scope
  else bodyOccurrences site.scope [site.node.statement]

/-- Neither stripping nor migrating finds anything at the site. -/
def Site.Untouched (confirmed : List String) (site : Site) : Prop :=
  ∀ occurrence ∈ site.occurrences, Probe.isConditional occurrence.statement = false ∧
    (TagForm.rule confirmed).replace? occurrence.scope occurrence.statement = none

instance (confirmed : List String) (site : Site) : Decidable (site.Untouched confirmed) :=
  inferInstanceAs (Decidable (∀ occurrence ∈ site.occurrences,
    Probe.isConditional occurrence.statement = false ∧
      (TagForm.rule confirmed).replace? occurrence.scope occurrence.statement = none))

/-- The text of a node. The block of a chained `else` opens with `else` and has no closing tag. -/
def Node.print (source : List Char) (node : Node) : Printed :=
  if node.chained then printChain source [node.statement] else node.statement.print source

/-! ### Migrating statement by statement -/

/-- A phrase, stripped and then rewritten with the tag of every confirmed invocation. -/
def Phrase.migrated (confirmed : List String) (scope : Scope) (phrase : Phrase) : Phrase :=
  ((TagForm.rule confirmed).rewritePhrase scope phrase.strip).1

theorem Rule.rewriteBody_append (rule : Rule) (scope : Scope) (first second : List Statement) :
    (rule.rewriteBody scope (first ++ second)).1 =
      (rule.rewriteBody scope first).1 ++ (rule.rewriteBody scope second).1 := by
  induction first with
  | nil =>
    rw [Rule.rewriteBody]
    rfl
  | cons statement rest inductionHypothesis =>
    rw [List.cons_append, rule.rewriteBody_cons, rule.rewriteBody_cons, inductionHypothesis]
    rfl

theorem bodyNodes_append (chained : Bool) (first second : List Statement) :
    bodyNodes chained (first ++ second) = bodyNodes chained first ++ bodyNodes chained second := by
  induction first with
  | nil =>
    rw [bodyNodes]
    rfl
  | cons statement rest inductionHypothesis =>
    rw [List.cons_append, bodyNodes, bodyNodes, inductionHypothesis, List.cons_append,
      List.append_assoc]

section Migrated

variable {confirmed : List String} {scope : Scope}

/-- Content is migrated statement by statement. -/
theorem nodes_migrated_cons (statement : Statement) (body : List Statement) :
    ((Phrase.content (statement :: body)).migrated confirmed scope).nodes =
      ((Phrase.content [statement]).migrated confirmed scope).nodes ++
        ((Phrase.content body).migrated confirmed scope).nodes := by
  simp only [Phrase.migrated, Phrase.strip, Rule.rewritePhrase, Phrase.nodes]
  rw [Probe.stripBody_cons, Rule.rewriteBody_append, bodyNodes_append]

/-- What becomes of a statement holds what the statement held. -/
theorem Settled.nodes {statement settled : Statement}
    (becomes : Settled (TagForm.rule confirmed) statement settled) :
    statement.nodes ⊆ settled.nodes := by
  cases becomes with
  | stays => exact List.Subset.refl _
  | replaced replaces =>
    obtain ⟨tag, -, becomes⟩ := TagForm.replace?_eq_some.mp replaces
    rcases TagForm.element?_cases becomes with ⟨_, rfl, rfl⟩ | ⟨tags, body, params, chained, rfl, rfl⟩
    · exact List.nil_subset _
    · show bodyNodes false body ++ [] ⊆ bodyNodes false (Build.text "\n" :: body)
      rw [List.append_nil]
      exact fun node member => mem_bodyNodes_cons.mpr (.inr (.inr member))

theorem Rule.settled_replaced (rule : Rule) (scope : Scope) (statement : Statement) :
    Settled rule statement (rule.replaced scope statement).1 := by
  cases replaces : rule.replace? scope statement with
  | none =>
    rw [Rule.replaced_of_none scope replaces]
    exact .stays
  | some replacement =>
    rw [Rule.replaced_of_some scope replaces]
    exact .replaced replaces

/-- A node in a statement is a node of the body that it stands in. -/
theorem mem_bodyNodes_of_mem_nodes {node : Node} {chained : Bool} {statement : Statement}
    {body : List Statement} (member : node ∈ statement.nodes) :
    node ∈ bodyNodes chained (statement :: body) :=
  mem_bodyNodes_cons.mpr (.inr (.inl member))

/-- The nodes that migrating an element leaves. -/
theorem subset_migrated_element {tags : ElementTags} {children : List Statement} :
    ((Phrase.content children).migrated confirmed (scope.within tags.params)).nodes ⊆
      ((Phrase.content [.element tags children]).migrated confirmed scope).nodes := by
  intro node member
  simp only [Phrase.migrated, Phrase.strip, Rule.rewritePhrase, Phrase.nodes] at member ⊢
  rw [Probe.stripBody_element, Probe.stripBody_nil, Rule.rewriteBody_cons, TagForm.rewrite_element]
  exact mem_bodyNodes_of_mem_nodes member

section Block

variable {tags : BlockTags} {program : List Statement} {params : List String} {chained : Bool}
  {inverse : Option Program}

/-- Of a conditional, migrating leaves the nodes of its first branch. -/
theorem subset_migrated_wrapper
    (found : Probe.isWrapper tags ⟨program, params, chained⟩ inverse = true) :
    ((Phrase.content program).migrated confirmed (scope.within params)).nodes ⊆
      ((Phrase.content [.block tags ⟨program, params, chained⟩ inverse]).migrated
        confirmed scope).nodes := by
  have noParams : params = [] := by
    cases inverse with
    | none => cases found
    | some inverse =>
      simp only [Probe.isWrapper, Bool.and_eq_true, List.isEmpty_iff] at found
      exact found.1.1.2
  simp only [Phrase.migrated, Phrase.strip]
  rw [Probe.stripBody_wrapper found, Probe.stripBody_nil, List.append_nil, noParams]
  exact List.Subset.refl _

/-- Of any other block, it leaves those of the program and those of the inverse. -/
theorem subset_migrated_block
    (other : Probe.isWrapper tags ⟨program, params, chained⟩ inverse = false) :
    ((Phrase.content program).migrated confirmed (scope.within params)).nodes ++
        ((Phrase.inverse tags inverse).migrated confirmed scope).nodes ⊆
      ((Phrase.content [.block tags ⟨program, params, chained⟩ inverse]).migrated
        confirmed scope).nodes := by
  intro node member
  simp only [Phrase.migrated, Phrase.strip, Rule.rewritePhrase, Phrase.nodes] at member ⊢
  rw [Probe.stripBody_block other, Probe.stripBody_nil, Rule.rewriteBody_cons,
    TagForm.rewrite_block]
  exact mem_bodyNodes_of_mem_nodes ((Rule.settled_replaced _ scope _).nodes member)

/-- An `else` has the nodes of its body. -/
theorem nodes_migrated_elseBody (body : List Statement) :
    ((Phrase.inverse tags (some ⟨body, params, false⟩)).migrated confirmed scope).nodes =
      ((Phrase.content body).migrated confirmed (scope.within params)).nodes := by
  simp only [Phrase.migrated, Phrase.strip, Rule.rewritePhrase, Phrase.nodes]
  rw [Probe.stripInverse_else, Rule.rewriteInverse_else, inverseNodes]

/-- Of a chained `else`, migrating leaves the nodes of its program and those of its inverse. -/
theorem subset_migrated_elseBlock {inner : BlockTags} {bound : List String} :
    ((Phrase.content program).migrated confirmed (scope.within params)).nodes ++
        ((Phrase.inverse inner inverse).migrated confirmed scope).nodes ⊆
      ((Phrase.inverse tags (some ⟨[.block inner ⟨program, params, chained⟩ inverse], bound,
        true⟩)).migrated confirmed scope).nodes := by
  intro node member
  simp only [Phrase.migrated, Phrase.strip, Rule.rewritePhrase, Phrase.nodes] at member ⊢
  rw [Probe.stripInverse_chain, Rule.rewriteInverse_chain]
  exact mem_bodyNodes_of_mem_nodes member

end Block

/-- Where neither stripping nor migrating finds anything, nothing changes. -/
theorem Regular.migrated_self {phrase : Phrase} (regular : Regular phrase)
    (untouched : ∀ occurrence ∈ phrase.occurrences scope,
      Probe.isConditional occurrence.statement = false ∧
        (TagForm.rule confirmed).replace? occurrence.scope occurrence.statement = none) :
    phrase.migrated confirmed scope = phrase := by
  have unprobed : ∀ statement ∈ phrase.statements, Probe.isConditional statement = false := by
    intro statement member
    rw [← regular.map_occurrences scope] at member
    obtain ⟨occurrence, isIn, rfl⟩ := List.mem_map.mp member
    exact (untouched occurrence isIn).1
  have kept := Reader.kept_of_replace? (fun _ => rfl) regular scope
    fun occurrence member => (untouched occurrence member).2
  rw [Phrase.migrated, regular.strip_self unprobed]
  exact congrArg Prod.fst kept

/-! ### Sites of a tree are sites of what it becomes -/

/-- A node of the phrase is one of the migrated phrase too, if nothing is found in it. -/
structure Site.Stays (confirmed : List String) (scope : Scope) (phrase : Phrase) (site : Site) :
    Prop where
  before : site.node ∈ phrase.nodes
  after : site.Untouched confirmed → site.node ∈ (phrase.migrated confirmed scope).nodes

section Stays

variable {site : Site} {statement : Statement} {body : List Statement}

/-- What stays in a part stays in the whole. -/
theorem Site.Stays.mono {inner : Scope} {part whole : Phrase}
    (stays : site.Stays confirmed inner part) (nodes : part.nodes ⊆ whole.nodes)
    (migrated : (part.migrated confirmed inner).nodes ⊆ (whole.migrated confirmed scope).nodes) :
    site.Stays confirmed scope whole :=
  ⟨nodes stays.before, fun untouched => migrated (stays.after untouched)⟩

theorem Site.Stays.here (stays : site.Stays confirmed scope (.content [statement])) :
    site.Stays confirmed scope (.content (statement :: body)) := by
  refine stays.mono ?_ ?_
  · show bodyNodes false [statement] ⊆ bodyNodes false ([statement] ++ body)
    rw [bodyNodes_append]
    exact List.subset_append_left ..
  · rw [nodes_migrated_cons statement body]
    exact List.subset_append_left ..

theorem Site.Stays.more (stays : site.Stays confirmed scope (.content body)) :
    site.Stays confirmed scope (.content (statement :: body)) := by
  refine stays.mono (fun _ member => mem_bodyNodes_cons.mpr (.inr (.inr member))) ?_
  rw [nodes_migrated_cons]
  exact List.subset_append_right ..

theorem Regular.stays (regular : Regular (.content [statement])) :
    Site.Stays confirmed scope (.content [statement]) ⟨scope, statement, false⟩ where
  before := mem_bodyNodes_cons.mpr (.inl rfl)
  after untouched := by
    rw [regular.migrated_self untouched]
    exact mem_bodyNodes_cons.mpr (.inl rfl)

theorem bodySites_leaf (isLeaf : statement.isLeaf = true) :
    bodySites scope (statement :: body) = ⟨scope, statement, false⟩ :: bodySites scope body := by
  cases statement with
  | block => cases isLeaf
  | element => cases isLeaf
  | _ => simp [bodySites, Statement.sites]

theorem bodySites_element (tags : ElementTags) (children : List Statement) :
    bodySites scope (.element tags children :: body) =
      ⟨scope, .element tags children, false⟩ ::
        (bodySites (scope.within tags.params) children ++ bodySites scope body) := by
  simp [bodySites, Statement.sites]

end Stays

/-- Sites that stay. -/
theorem Regular.sites_stay {phrase : Phrase} (regular : Regular phrase) :
    ∀ scope, ∀ site ∈ phrase.sites scope, site.Stays confirmed scope phrase := by
  induction regular with
  | nil =>
    intro scope site member
    rw [Phrase.sites, bodySites] at member
    cases member
  | @leaf statement body isLeaf more inMore =>
    intro scope site member
    rw [Phrase.sites, bodySites_leaf isLeaf] at member
    rcases List.mem_cons.mp member with rfl | further
    · exact (Regular.leaf isLeaf .nil).stays.here
    · exact (inMore scope site further).more
  | @element tags children body content more inContent inMore =>
    intro scope site member
    rw [Phrase.sites, bodySites_element, List.mem_cons, List.mem_append] at member
    rcases member with rfl | inside | further
    · exact (Regular.element content .nil).stays.here
    · have inElement : (Phrase.content children).nodes ⊆
          (Phrase.content [.element tags children]).nodes :=
        fun _ member => mem_bodyNodes_of_mem_nodes member
      exact ((inContent _ site inside).mono inElement subset_migrated_element).here
    · exact (inMore scope site further).more
  | @block tags program body params chained inverse content others more inContent inOthers inMore =>
    intro scope site member
    have inProgram : (Phrase.content program).nodes ⊆
        (Phrase.content [.block tags ⟨program, params, chained⟩ inverse]).nodes :=
      fun _ member => mem_bodyNodes_of_mem_nodes (List.mem_append_left _ member)
    have inInverse : (Phrase.inverse tags inverse).nodes ⊆
        (Phrase.content [.block tags ⟨program, params, chained⟩ inverse]).nodes :=
      fun _ member => mem_bodyNodes_of_mem_nodes (List.mem_append_right _ member)
    rw [Phrase.sites, bodySites, Program.sites] at member
    cases found : Probe.isWrapper tags ⟨program, params, chained⟩ inverse with
    | true =>
      rw [found, if_pos rfl, List.mem_append] at member
      rcases member with inside | further
      · exact ((inContent _ site inside).mono inProgram (subset_migrated_wrapper found)).here
      · exact (inMore scope site further).more
    | false =>
      rw [found, if_neg Bool.false_ne_true, List.mem_cons, List.mem_append, List.mem_append]
        at member
      have migrated := @subset_migrated_block confirmed scope _ _ _ _ _ found
      rcases member with rfl | (inside | behind) | further
      · exact (Regular.block content others .nil).stays.here
      · exact ((inContent _ site inside).mono inProgram
          (List.Subset.trans (List.subset_append_left ..) migrated)).here
      · exact ((inOthers scope site behind).mono inInverse
          (List.Subset.trans (List.subset_append_right ..) migrated)).here
      · exact (inMore scope site further).more
  | noInverse =>
    intro scope site member
    rw [Phrase.sites, inverseSites] at member
    cases member
  | @elseBody tags body params content inContent =>
    intro scope site member
    rw [Phrase.sites, inverseSites] at member
    refine (inContent _ site member).mono (List.Subset.refl _) ?_
    rw [nodes_migrated_elseBody]
    exact List.Subset.refl _
  | @elseBlock tags chained program params bound continued inverse content others inContent
      inOthers =>
    intro scope site member
    rw [Phrase.sites, inverseSites, chainSites, chainSites, List.append_nil, Statement.sites,
      Program.sites, List.mem_cons, List.mem_append] at member
    rcases member with rfl | inside | behind
    · refine ⟨mem_bodyNodes_cons.mpr (.inl rfl), fun untouched => ?_⟩
      rw [(Regular.elseBlock content others).migrated_self]
      · exact mem_bodyNodes_cons.mpr (.inl rfl)
      · intro occurrence member
        rw [Phrase.occurrences, inverseOccurrences_chain] at member
        exact untouched occurrence member
    · exact (inContent _ site inside).mono
        (fun _ member => mem_bodyNodes_of_mem_nodes (List.mem_append_left _ member))
        (List.Subset.trans (List.subset_append_left ..) subset_migrated_elseBlock)
    · exact (inOthers scope site behind).mono
        (fun _ member => mem_bodyNodes_of_mem_nodes (List.mem_append_right _ member))
        (List.Subset.trans (List.subset_append_right ..) subset_migrated_elseBlock)

end Migrated

/-! ### Nodes are printed as they were written -/

/-- A body of one statement prints as the statement. -/
theorem print_of_printBody {source text : List Char} {statement : Statement}
    (prints : printBody source [statement] = .ok text) : statement.print source = .ok text := by
  cases here : statement.print source with
  | error span =>
    rw [printBody, here] at prints
    cases prints
  | ok written =>
    have alone := printBody_cons here (printBody.eq_1 source)
    rw [List.append_nil, prints] at alone
    exact alone.symm

/-- A node that was read is printed as the slice of the source at its span. -/
theorem Reader.ReadFrom.print {source : List Char} {node : Node} (readFrom : ReadFrom source node) :
    ∃ span text, node.statement.span = some span ∧ slice? source span = some text ∧
      node.print source = .ok text := by
  cases readFrom with
  | own stands span spelling =>
    exact ⟨_, _, span, stands.slice?, print_of_printBody (spelling.print stands)⟩
  | chained stands span spelling =>
    have prints := spelling.print stands
    rw [Phrase.print, printInverse] at prints
    exact ⟨_, _, span, stands.slice?, prints⟩

/-! ### What migrating replaces -/

/-- Migrating a template that was read is a plain recursion on what stripping leaves of it. A
statement is replaced, after its content, exactly if it is an invocation that has a tag form under
the names that are bound around it, and the number of changes is the number of these statements. A
node that stripping keeps is a node of the migrated template and is printed as its slice of the
source, if it holds neither a conditional nor a statement that is replaced. -/
theorem migrate_of_read (source identity : String) (template : Template) (confirmed : List String)
    (read : Template.read source identity = .ok template) :
    let stripped := template.strip.template
    let rewritten := (TagForm.rule confirmed).rewriteBody .empty stripped.body
    template.migrate confirmed = ⟨{ template with body := rewritten.1 }, rewritten.2⟩ ∧
      (∀ scope statement replacement,
        (TagForm.rule confirmed).replace? scope statement = some replacement ↔
          TagForm.Becomes confirmed scope.names statement replacement) ∧
      rewritten.2 = stripped.occurrences.countP (Occurrence.isReplaced confirmed) ∧
      ∀ site ∈ template.sites, site.Untouched confirmed →
        site.node ∈ (template.migrate confirmed).template.nodes ∧
          ∃ span text, site.node.statement.span = some span ∧
            slice? source.toList span = some text ∧ site.node.print source.toList = .ok text := by
  have readFrom := Template.readFrom_of_read read
  have orderly := Template.orderly_of_read read
  have migrates := orderly.migrate_eq confirmed
  refine ⟨migrates, fun _ _ _ => TagForm.replace?_iff_becomes,
    orderly.strip.regular.rewrite_count confirmed .empty, fun site member untouched => ?_⟩
  obtain ⟨before, after⟩ := orderly.regular.sites_stay .empty site member
  refine ⟨?_, (readFrom site.node before).print⟩
  rw [migrates]
  exact after untouched

/-- A chained `else` that stays. -/
def probedElse : String :=
  "\x7b\x7belse if b\x7d\x7d\x7b\x7bfoo~\x7d\x7d"

/-- Invocations with an argument and with a `~` marker in the two branches of a block, a conditional
on a probe, and a block that binds its own name. -/
def probedSource : String :=
  "\x7b\x7b#if a\x7d\x7d\x7b\x7bfoo 1\x7d\x7d" ++ probedElse ++ "\x7b\x7b/if\x7d\x7d" ++
    "\x7b\x7b#if (-probe-is-component \"foo\")\x7d\x7d\x7b\x7bfoo\x7d\x7d" ++
    "\x7b\x7belse\x7d\x7d\x7b\x7bfoo\x7d\x7d\x7b\x7b/if\x7d\x7d" ++
    "\x7b\x7b#foo as |foo|\x7d\x7d\x7b\x7bfoo\x7d\x7d\x7b\x7b/foo\x7d\x7d"

theorem migrate_probedSource : ∃ template site,
    Template.read probedSource "a.hbs" = .ok template ∧
      (template.migrate ["foo"]).changes = 2 ∧ site ∈ template.sites ∧
      site.node.chained = true ∧ site.node ∈ (template.migrate ["foo"]).template.nodes ∧
      site.node.print probedSource.toList = .ok probedElse.toList := by
  have succeeds : ((Template.read probedSource "a.hbs").toOption.any fun template =>
      decide (((TagForm.rule ["foo"]).rewriteBody .empty template.strip.template.body).2 = 2 ∧
        (template.sites.any fun site => decide (site.node.chained = true ∧
          site.Untouched ["foo"] ∧ site.node.statement.span = some ⟨18, 39⟩)) = true)) = true := by
    decide +kernel
  obtain ⟨template, read, two, found⟩ := Template.exists_of_read succeeds
  obtain ⟨site, member, holds⟩ := List.any_eq_true.mp found
  obtain ⟨chained, untouched, isSpan⟩ := of_decide_eq_true holds
  obtain ⟨migrates, -, -, stays⟩ := migrate_of_read probedSource "a.hbs" template ["foo"] read
  obtain ⟨left, span, text, isSame, slice, prints⟩ := stays site member untouched
  obtain rfl : span = ⟨18, 39⟩ := Option.some.inj (isSame.symm.trans isSpan)
  have written : slice? probedSource.toList ⟨18, 39⟩ = some probedElse.toList := by decide +kernel
  obtain rfl : text = probedElse.toList := Option.some.inj (slice.symm.trans written)
  exact ⟨template, site, read, by rw [migrates]; exact two, member, chained, left, prints⟩

end TagMigration
