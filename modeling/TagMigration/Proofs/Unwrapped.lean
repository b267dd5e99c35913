/-
What stripping throws away. A conditional gives way to its first branch, and its second branch is
dropped. Nothing is lost by that if both branches print the same text, and in the conditionals that
instrumenting puts in they do. But a conditional is recognised by its form, and an author can write
one of that form with two different branches. So the text of an instrumented template is stripped
without loss exactly if the template itself is.
-/
import TagMigration.Proofs.Replacement

namespace TagMigration

/-! ### The conditionals that stripping replaces -/

namespace Probe

mutual

/-- The conditionals in a statement that stripping replaces, in document order. -/
def unwrappedInside : Statement → List Statement
  | .block _ program inverse => unwrappedProgram program ++ unwrappedInverse inverse
  | .element _ children => unwrappedBody children
  | .text _ => []
  | .mustache _ => []
  | .comment _ => []
  | .curlyComment _ => []

/-- The conditionals in a body that stripping replaces. The second branch of one is dropped, so
stripping never gets to the conditionals in there. -/
def unwrappedBody : List Statement → List Statement
  | [] => []
  | .block tags program inverse :: rest =>
    if isWrapper tags program inverse then
      .block tags program inverse :: (unwrappedProgram program ++ unwrappedBody rest)
    else unwrappedProgram program ++ unwrappedInverse inverse ++ unwrappedBody rest
  | statement :: rest => unwrappedInside statement ++ unwrappedBody rest

/-- The conditionals in a program that stripping replaces. -/
def unwrappedProgram : Program → List Statement
  | ⟨body, _, _⟩ => unwrappedBody body

/-- The conditionals in an inverse that stripping replaces. -/
def unwrappedInverse : Option Program → List Statement
  | none => []
  | some ⟨body, _, true⟩ => unwrappedChain body
  | some ⟨body, _, false⟩ => unwrappedBody body

/-- The conditionals in the body of a chained inverse that stripping replaces: its block is none of
them. -/
def unwrappedChain : List Statement → List Statement
  | [] => []
  | statement :: rest => unwrappedInside statement ++ unwrappedChain rest

end

mutual

theorem length_unwrappedInside : ∀ statement : Statement,
    (unwrappedInside statement).length = (stripInside statement).2
  | .block tags program inverse => by
    rw [unwrappedInside, stripInside, List.length_append, length_unwrappedProgram,
      length_unwrappedInverse]
  | .element tags children => by
    rw [unwrappedInside, stripInside, length_unwrappedBody]
  | .text _ => by rw [unwrappedInside, stripInside]; rfl
  | .mustache _ => by rw [unwrappedInside, stripInside]; rfl
  | .comment _ => by rw [unwrappedInside, stripInside]; rfl
  | .curlyComment _ => by rw [unwrappedInside, stripInside]; rfl

/-- Stripping a body counts the conditionals that it replaces. -/
theorem length_unwrappedBody : ∀ body : List Statement,
    (unwrappedBody body).length = (stripBody body).2
  | [] => by rw [unwrappedBody, stripBody]; rfl
  | .block tags program inverse :: rest => by
    cases found : isWrapper tags program inverse with
    | true =>
      simp only [unwrappedBody, stripBody, found, if_true, List.length_cons, List.length_append,
        length_unwrappedProgram, length_unwrappedBody rest]
    | false =>
      simp only [unwrappedBody, stripBody, found, Bool.false_eq_true, if_false, List.length_append,
        length_unwrappedProgram, length_unwrappedInverse, length_unwrappedBody rest]
      omega
  | .element tags children :: rest => by
    simp only [unwrappedBody, stripBody, List.length_append, length_unwrappedInside,
      length_unwrappedBody rest]
  | .text run :: rest => by
    simp only [unwrappedBody, stripBody, List.length_append, length_unwrappedInside,
      length_unwrappedBody rest]
  | .mustache tag :: rest => by
    simp only [unwrappedBody, stripBody, List.length_append, length_unwrappedInside,
      length_unwrappedBody rest]
  | .comment remark :: rest => by
    simp only [unwrappedBody, stripBody, List.length_append, length_unwrappedInside,
      length_unwrappedBody rest]
  | .curlyComment remark :: rest => by
    simp only [unwrappedBody, stripBody, List.length_append, length_unwrappedInside,
      length_unwrappedBody rest]

theorem length_unwrappedProgram : ∀ program : Program,
    (unwrappedProgram program).length = (stripProgram program).2
  | ⟨body, params, chained⟩ => by
    rw [unwrappedProgram, stripProgram, length_unwrappedBody body]

theorem length_unwrappedInverse : ∀ inverse : Option Program,
    (unwrappedInverse inverse).length = (stripInverse inverse).2
  | none => by rw [unwrappedInverse, stripInverse]; rfl
  | some ⟨body, params, true⟩ => by
    rw [unwrappedInverse, stripInverse, length_unwrappedChain body]
  | some ⟨body, params, false⟩ => by
    rw [unwrappedInverse, stripInverse, length_unwrappedBody body]

theorem length_unwrappedChain : ∀ body : List Statement,
    (unwrappedChain body).length = (stripChain body).2
  | [] => by rw [unwrappedChain, stripChain]; rfl
  | statement :: rest => by
    rw [unwrappedChain, stripChain, List.length_append, length_unwrappedInside statement,
      length_unwrappedChain rest]

end

section Equations

variable {tags : BlockTags} {program : List Statement} {params : List String} {chained : Bool}
  {inverse : Option Program}

theorem unwrappedBody_leaf {statement : Statement} (isLeaf : statement.isLeaf = true)
    (rest : List Statement) : unwrappedBody (statement :: rest) = unwrappedBody rest := by
  cases statement with
  | block => cases isLeaf
  | element => cases isLeaf
  | _ => simp [unwrappedBody, unwrappedInside]

theorem unwrappedBody_element (tags : ElementTags) (children rest : List Statement) :
    unwrappedBody (.element tags children :: rest) =
      unwrappedBody children ++ unwrappedBody rest := by
  simp [unwrappedBody, unwrappedInside]

theorem unwrappedBody_wrapper (found : isWrapper tags ⟨program, params, chained⟩ inverse = true)
    (rest : List Statement) :
    unwrappedBody (.block tags ⟨program, params, chained⟩ inverse :: rest) =
      .block tags ⟨program, params, chained⟩ inverse ::
        (unwrappedBody program ++ unwrappedBody rest) := by
  rw [unwrappedBody, if_pos found, unwrappedProgram]

theorem unwrappedBody_block (other : isWrapper tags ⟨program, params, chained⟩ inverse = false)
    (rest : List Statement) :
    unwrappedBody (.block tags ⟨program, params, chained⟩ inverse :: rest) =
      unwrappedBody program ++ unwrappedInverse inverse ++ unwrappedBody rest := by
  rw [unwrappedBody, if_neg (Bool.eq_false_iff.mp other), unwrappedProgram]

theorem unwrappedInverse_chain (bound : List String) :
    unwrappedInverse (some ⟨[.block tags ⟨program, params, chained⟩ inverse], bound, true⟩) =
      unwrappedBody program ++ unwrappedInverse inverse := by
  rw [unwrappedInverse, unwrappedChain, unwrappedChain, unwrappedInside, unwrappedProgram,
    List.append_nil]

end Equations

end Probe

/-- The conditionals of a template that stripping replaces. -/
def Template.unwrapped (template : Template) : List Statement :=
  Probe.unwrappedBody template.body

theorem Template.length_unwrapped (template : Template) :
    template.unwrapped.length = template.strip.changes :=
  Probe.length_unwrappedBody template.body

/-- The conditionals of a phrase that stripping replaces. -/
def Phrase.unwrapped : Phrase → List Statement
  | .content body => Probe.unwrappedBody body
  | .inverse _ others => Probe.unwrappedInverse others

/-! ### Branches -/

/-- Both branches of a block print, with the same text. -/
def Statement.BranchesAgree (source : List Char) : Statement → Prop
  | .block _ program (some inverse) =>
    Agree (printBody source program.body) (printBody source inverse.body)
  | _ => False

instance (first second : Printed) : Decidable (Agree first second) :=
  match first, second with
  | .ok text, .ok other => decidable_of_iff (text = other)
      ⟨fun same => ⟨text, rfl, congrArg Except.ok same.symm⟩,
        fun ⟨_, left, right⟩ => Except.ok.inj (left.trans right.symm)⟩
  | .error _, _ => .isFalse fun ⟨_, left, _⟩ => nomatch left
  | .ok _, .error _ => .isFalse fun ⟨_, _, right⟩ => nomatch right

instance (source : List Char) : ∀ statement : Statement, Decidable (statement.BranchesAgree source)
  | .block _ program (some inverse) =>
    inferInstanceAs (Decidable (Agree (printBody source program.body)
      (printBody source inverse.body)))
  | .block _ _ none => .isFalse id
  | .text _ => .isFalse id
  | .mustache _ => .isFalse id
  | .element .. => .isFalse id
  | .comment _ => .isFalse id
  | .curlyComment _ => .isFalse id

/-- Both branches of a block print the same or fail in the same way. -/
def Statement.BranchesSame (source : List Char) : Statement → Prop
  | .block _ program (some inverse) =>
    printBody source program.body = printBody source inverse.body
  | _ => True

/-- All conditionals that stripping replaces have branches that print the same. -/
def Phrase.Lossless (source : List Char) (phrase : Phrase) : Prop :=
  ∀ statement ∈ phrase.unwrapped, statement.BranchesSame source

section Lossless

variable {source other : List Char} {statement : Statement} {body : List Statement}
  {tags : BlockTags} {program : List Statement} {params : List String} {chained : Bool}
  {inverse : Option Program}

theorem lossless_nil : (Phrase.content []).Lossless source := by
  intro statement member
  rw [Phrase.unwrapped, Probe.unwrappedBody] at member
  cases member

theorem lossless_leaf (isLeaf : statement.isLeaf = true) :
    (Phrase.content (statement :: body)).Lossless source ↔ (Phrase.content body).Lossless source := by
  rw [Phrase.Lossless, Phrase.unwrapped, Probe.unwrappedBody_leaf isLeaf]
  rfl

theorem lossless_element (elementTags : ElementTags) (children : List Statement) :
    (Phrase.content (.element elementTags children :: body)).Lossless source ↔
      (Phrase.content children).Lossless source ∧ (Phrase.content body).Lossless source := by
  rw [Phrase.Lossless, Phrase.unwrapped, Probe.unwrappedBody_element, List.forall_mem_append]
  rfl

theorem lossless_wrapper
    (found : Probe.isWrapper tags ⟨program, params, chained⟩ inverse = true) :
    (Phrase.content (.block tags ⟨program, params, chained⟩ inverse :: body)).Lossless source ↔
      (Statement.block tags ⟨program, params, chained⟩ inverse).BranchesSame source ∧
        (Phrase.content program).Lossless source ∧ (Phrase.content body).Lossless source := by
  rw [Phrase.Lossless, Phrase.unwrapped, Probe.unwrappedBody_wrapper found, List.forall_mem_cons,
    List.forall_mem_append]
  rfl

theorem lossless_block
    (isOther : Probe.isWrapper tags ⟨program, params, chained⟩ inverse = false) :
    (Phrase.content (.block tags ⟨program, params, chained⟩ inverse :: body)).Lossless source ↔
      ((Phrase.content program).Lossless source ∧
        (Phrase.inverse tags inverse).Lossless source) ∧ (Phrase.content body).Lossless source := by
  rw [Phrase.Lossless, Phrase.unwrapped, Probe.unwrappedBody_block isOther, List.forall_mem_append,
    List.forall_mem_append]
  rfl

theorem lossless_noInverse : (Phrase.inverse tags none).Lossless source := by
  intro statement member
  rw [Phrase.unwrapped, Probe.unwrappedInverse] at member
  cases member

theorem lossless_elseBody :
    (Phrase.inverse tags (some ⟨body, params, false⟩)).Lossless source ↔
      (Phrase.content body).Lossless source := by
  rw [Phrase.Lossless, Phrase.unwrapped, Probe.unwrappedInverse]
  rfl

theorem lossless_elseBlock (outer : BlockTags) (bound : List String) :
    (Phrase.inverse outer
        (some ⟨[.block tags ⟨program, params, chained⟩ inverse], bound, true⟩)).Lossless source ↔
      (Phrase.content program).Lossless source ∧ (Phrase.inverse tags inverse).Lossless source := by
  rw [Phrase.Lossless, Phrase.unwrapped, Probe.unwrappedInverse_chain, List.forall_mem_append]
  rfl

/-- The conditionals of a body are those of its first statement and those of the rest. -/
theorem lossless_cons (statement : Statement) (body : List Statement) :
    (Phrase.content (statement :: body)).Lossless source ↔
      (Phrase.content [statement]).Lossless source ∧ (Phrase.content body).Lossless source := by
  have alone := @lossless_nil source
  cases statement with
  | block tags program inverse =>
    obtain ⟨program, params, chained⟩ := program
    cases found : Probe.isWrapper tags ⟨program, params, chained⟩ inverse with
    | true => simp only [lossless_wrapper found, alone, and_true, and_assoc]
    | false => simp only [lossless_block found, alone, and_true]
  | element tags children => simp only [lossless_element, alone, and_true]
  | _ =>
    rw [lossless_leaf rfl, lossless_leaf rfl]
    exact (and_iff_right alone).symm

end Lossless

/-! ### What instrumenting puts in -/

section Walk

variable {source : List Char} {identity : String}

/-- Settling a statement puts nothing in that would be lost. -/
theorem lossless_settle (scope : Scope) (seen : Seen) (statement : Statement)
    (body : List Statement) :
    (Phrase.content (((Probe.rule identity).settle scope seen statement).1 :: body)).Lossless
        source ↔ (Phrase.content (statement :: body)).Lossless source := by
  unfold Rule.settle
  split
  · next replacement span replaces found =>
    split
    · rfl
    · obtain ⟨name, -, rfl⟩ := Option.map_eq_some_iff.mp replaces
      rw [lossless_cons statement]
      refine Iff.trans (lossless_wrapper (Probe.isWrapper_conditionalTags ..)) ?_
      exact and_iff_right rfl
  · rfl

/-- Whatever places it has seen, a walk that probes neither takes out nor puts in anything that
would be lost. It goes through the content of a block only if the block is no conditional. -/
theorem Regular.lossless_walk {phrase : Phrase} (regular : Regular phrase) :
    (∀ statement ∈ phrase.statements,
      (Probe.rule identity).leaves statement = Probe.isConditional statement) →
    ∀ scope seen, (phrase.walk (Probe.rule identity) scope seen).Lossless source ↔
      phrase.Lossless source := by
  induction regular with
  | nil =>
    intro leaves scope seen
    rw [Phrase.walk, Rule.walkBody]
  | @leaf statement body isLeaf more walkMore =>
    intro leaves scope seen
    obtain ⟨-, -, leavesMore⟩ := forall_statements_cons.mp leaves
    rw [Phrase.walk, Rule.walkBody_cons, Rule.walk_leaf _ _ _ isLeaf, lossless_settle,
      lossless_leaf isLeaf, lossless_leaf isLeaf]
    exact walkMore leavesMore scope _
  | @element tags children body content more walkChildren walkMore =>
    intro leaves scope seen
    obtain ⟨-, leavesChildren, leavesMore⟩ := forall_statements_cons.mp leaves
    rw [Phrase.walk, Rule.walkBody_cons, Rule.walk_element, lossless_settle, lossless_element,
      lossless_element]
    exact and_congr (walkChildren leavesChildren (scope.within tags.params) seen)
      (walkMore leavesMore scope _)
  | @block tags program body params chained inverse content others more walkProgram walkOthers
      walkMore =>
    intro leaves scope seen
    obtain ⟨isLeft, leavesProgram, leavesOthers, leavesMore⟩ := forall_statements_block.mp leaves
    have same := walkMore leavesMore scope
    cases left : (Probe.rule identity).leaves (.block tags ⟨program, params, chained⟩ inverse) with
    | true =>
      rw [Phrase.walk, Rule.walkBody_cons, Rule.walk_left _ _ _ left, lossless_cons]
      exact (and_congr_right' (same _)).trans (lossless_cons _ _).symm
    | false =>
      have isOther : Probe.isWrapper tags ⟨program, params, chained⟩ inverse = false :=
        isLeft.symm.trans left
      have sameInner := walkProgram leavesProgram (scope.within params) seen
      have sameOthers := walkOthers leavesOthers scope
      rw [Phrase.walk, Rule.walkBody_cons, Rule.walk_block _ _ _ left, lossless_settle,
        lossless_block isOther, lossless_block ((Probe.isWrapper_walk ..).trans isOther)]
      exact and_congr (and_congr sameInner (sameOthers _)) (same _)
  | noInverse =>
    intro leaves scope seen
    rw [Phrase.walk, Rule.walkInverse]
  | @elseBody tags body params content walkBody =>
    intro leaves scope seen
    rw [Phrase.walk, Rule.walkInverse_else, lossless_elseBody, lossless_elseBody]
    exact walkBody leaves (scope.within params) seen
  | @elseBlock tags chained program params bound continued inverse content others walkProgram
      walkOthers =>
    intro leaves scope seen
    obtain ⟨leavesProgram, leavesOthers⟩ := forall_statements_chain.mp leaves
    rw [Phrase.walk, Rule.walkInverse_chain, lossless_elseBlock, lossless_elseBlock]
    exact and_congr (walkProgram leavesProgram (scope.within params) seen)
      (walkOthers leavesOthers scope _)

end Walk

/-! ### Twins -/

/-- Twins lose the same: the branches of a conditional print in its twin as they do in it. -/
theorem Twin.lossless {source other : List Char} {phrase twin : Phrase}
    (twins : Twin source other phrase twin) : phrase.Lossless source ↔ twin.Lossless other := by
  induction twins with
  | nil => exact iff_of_true lossless_nil lossless_nil
  | @plain statement copy body rest isLeaf isPlain alike prints more sameMore =>
    have copyLeaf : copy.isLeaf = true := by
      rw [← eq_of_alike Statement.isLeaf_mapSpans alike, isLeaf]
    rw [lossless_leaf isLeaf, lossless_leaf copyLeaf]
    exact sameMore
  | mustache alike attributes prints more sameMore =>
    rw [lossless_leaf rfl, lossless_leaf rfl]
    exact sameMore
  | element alike start ending content more sameChildren sameMore =>
    rw [lossless_element, lossless_element]
    exact and_congr sameChildren sameMore
  | @block tags copyTags program copy body rest params chained inverse others opens closes content
      inverses more sameProgram sameInverses sameMore =>
    have sameForm : Probe.isWrapper tags ⟨program, params, chained⟩ inverse =
        Probe.isWrapper copyTags ⟨copy, params, chained⟩ others :=
      eq_of_alike Probe.isConditional_mapSpans
        (Twin.block opens closes content inverses more).alike_head
    cases found : Probe.isWrapper tags ⟨program, params, chained⟩ inverse with
    | true =>
      rw [lossless_wrapper found, lossless_wrapper (sameForm ▸ found)]
      refine and_congr ?_ (and_congr sameProgram sameMore)
      obtain ⟨first, left, right⟩ := content.print
      rw [Phrase.print] at left right
      cases inverses with
      | noInverse => rfl
      | elseBody middle contentElse =>
        obtain ⟨second, leftElse, rightElse⟩ := contentElse.print
        rw [Phrase.print] at leftElse rightElse
        simp only [Statement.BranchesSame, left, right, leftElse, rightElse]
      | elseBlock => simp [Probe.isWrapper] at found
    | false =>
      rw [lossless_block found, lossless_block (sameForm ▸ found)]
      exact and_congr (and_congr sameProgram sameInverses) sameMore
  | noInverse => exact iff_of_true lossless_noInverse lossless_noInverse
  | elseBody middle content sameBody =>
    rw [lossless_elseBody, lossless_elseBody]
    exact sameBody
  | elseBlock opens content inverses sameProgram sameInverses =>
    rw [lossless_elseBlock, lossless_elseBlock]
    exact and_congr sameProgram sameInverses

/-! ### Templates that were read -/

/-- What stripping replaces is a conditional that is a statement of the phrase. -/
theorem Regular.mem_unwrapped {phrase : Phrase} (regular : Regular phrase) :
    ∀ statement ∈ phrase.unwrapped,
      statement ∈ phrase.statements ∧ Probe.isConditional statement = true := by
  induction regular with
  | nil =>
    rw [Phrase.unwrapped, Probe.unwrappedBody]
    exact List.forall_mem_nil _
  | leaf isLeaf more inMore =>
    rw [Phrase.unwrapped, Probe.unwrappedBody_leaf isLeaf]
    exact fun statement member => (inMore statement member).imp_left mem_statements_more
  | element content more inContent inMore =>
    rw [Phrase.unwrapped, Probe.unwrappedBody_element]
    exact List.forall_mem_append.mpr
      ⟨fun statement member => (inContent statement member).imp_left mem_statements_inside,
        fun statement member => (inMore statement member).imp_left mem_statements_more⟩
  | @block tags program body params chained inverse content others more inContent inOthers inMore =>
    have first (statement : Statement) (member : statement ∈ Probe.unwrappedBody program) :=
      (inContent statement member).imp_left fun inside =>
        @mem_statements_inside (.block tags ⟨program, params, chained⟩ inverse) _ body
          (List.mem_append_left _ inside)
    have further (statement : Statement) (member : statement ∈ Probe.unwrappedBody body) :=
      (inMore statement member).imp_left
        (@mem_statements_more (.block tags ⟨program, params, chained⟩ inverse) _ body)
    cases found : Probe.isWrapper tags ⟨program, params, chained⟩ inverse with
    | true =>
      rw [Phrase.unwrapped, Probe.unwrappedBody_wrapper found]
      exact List.forall_mem_cons.mpr
        ⟨⟨List.mem_cons_self, found⟩, List.forall_mem_append.mpr ⟨first, further⟩⟩
    | false =>
      rw [Phrase.unwrapped, Probe.unwrappedBody_block found]
      refine List.forall_mem_append.mpr ⟨List.forall_mem_append.mpr ⟨first, ?_⟩, further⟩
      exact fun statement member => (inOthers statement member).imp_left fun inside =>
        mem_statements_inside (List.mem_append_right _ inside)
  | noInverse =>
    rw [Phrase.unwrapped, Probe.unwrappedInverse]
    exact List.forall_mem_nil _
  | elseBody content inContent =>
    rw [Phrase.unwrapped, Probe.unwrappedInverse]
    exact inContent
  | elseBlock content others inContent inOthers =>
    rw [Phrase.unwrapped, Probe.unwrappedInverse_chain, Phrase.statements, inverseStatements_chain]
    exact List.forall_mem_append.mpr
      ⟨fun statement member => (inContent statement member).imp_left (List.mem_append_left _),
        fun statement member => (inOthers statement member).imp_left (List.mem_append_right _)⟩

/-- In a conditional that prints, branches are the same exactly if they print the same. -/
theorem Statement.branchesAgree_iff {source printed : List Char} {statement : Statement}
    (isConditional : Probe.isConditional statement = true)
    (prints : statement.print source = .ok printed) :
    statement.BranchesAgree source ↔ statement.BranchesSame source := by
  cases statement with
  | block tags program inverse =>
    cases inverse with
    | none => cases isConditional
    | some inverse =>
      constructor
      · rintro ⟨text, first, second⟩
        exact first.trans second.symm
      · intro same
        obtain ⟨program, params, chained⟩ := program
        rw [Statement.print] at prints
        obtain ⟨opening, -, prints⟩ := bind_eq_ok prints
        obtain ⟨first, printsFirst, -⟩ := bind_eq_ok prints
        exact ⟨first, printsFirst, same.symm.trans printsFirst⟩
  | _ => cases isConditional

/-- Over a template that was read, the branches of what stripping replaces all print. -/
theorem Reader.Spelling.lossless_iff {source : List Char} {body : List Statement}
    (spelling : Reader.Spelling none 0 source (.content body)) :
    (∀ statement ∈ Probe.unwrappedBody body, statement.BranchesAgree source) ↔
      (Phrase.content body).Lossless source := by
  refine forall₂_congr fun statement member => ?_
  obtain ⟨inside, isConditional⟩ := spelling.regular.mem_unwrapped statement member
  have readFrom := spelling.readFrom ⟨[], .inl rfl, rfl⟩ (stands_self source) _
    (spelling.regular.mem_nodes statement inside)
  cases readFrom with
  | own stands span spellingHere =>
    exact Statement.branchesAgree_iff isConditional (print_of_printBody (spellingHere.print stands))

/-- The text of an instrumented template is stripped without loss exactly if the template is. Both
times stripping replaces as many conditionals as it counts; and all of them have branches that print
the same text in the one exactly if they have in the other. -/
theorem strip_lossless_reread (source identity : String) (template : Template)
    (read : Template.read source identity = .ok template)
    (plainIdentity : '\\' ∉ identity.toList) (plainNames : template.PlainNames) :
    ∃ text again, template.instrument.template.print = .ok text ∧
      Template.read text identity = .ok again ∧
      template.unwrapped.length = template.strip.changes ∧
      again.unwrapped.length = again.strip.changes ∧
      ((∀ conditional ∈ again.unwrapped, conditional.BranchesAgree text.toList) ↔
        ∀ conditional ∈ template.unwrapped, conditional.BranchesAgree source.toList) := by
  have readFrom := Template.readFrom_of_read read
  obtain ⟨body, rfl, spelling⟩ := Template.read_eq_ok.mp read
  obtain ⟨text, copy, spelled, twins, -⟩ := exists_reread spelling plainIdentity plainNames
  have leaves (statement : Statement) (member : statement ∈ bodyStatements body) :=
    Probe.leaves_of_readFrom identity (readFrom _ (spelling.regular.mem_nodes statement member))
  refine ⟨text, ⟨identity, text, copy⟩, Template.print_of_twin spelled twins,
    Template.read_eq_ok.mpr ⟨copy, rfl, spelled⟩, Template.length_unwrapped _,
    Template.length_unwrapped _, ?_⟩
  calc (∀ conditional ∈ Probe.unwrappedBody copy, conditional.BranchesAgree text.toList)
      ↔ (Phrase.content copy).Lossless text.toList := spelled.lossless_iff
    _ ↔ ((Phrase.content body).walk (Probe.rule identity) .empty .empty).Lossless source.toList :=
      twins.lossless.symm
    _ ↔ (Phrase.content body).Lossless source.toList :=
      spelling.regular.lossless_walk leaves .empty .empty
    _ ↔ ∀ conditional ∈ Probe.unwrappedBody body, conditional.BranchesAgree source.toList :=
      spelling.lossless_iff.symm

/-- A conditional on a probe, with an invocation in both branches, inside a chained `else`, and a tag
that is ambiguous. -/
def wrappedSource : String :=
  "\x7b\x7b#if a\x7d\x7d\x7b\x7bbar\x7d\x7d\x7b\x7belse if b\x7d\x7d" ++
    "\x7b\x7b#if (-probe-is-component \"foo\")\x7d\x7d\x7b\x7bfoo\x7d\x7d" ++
    "\x7b\x7belse\x7d\x7d\x7b\x7bfoo\x7d\x7d\x7b\x7b/if\x7d\x7d\x7b\x7b/if\x7d\x7d"

theorem strip_lossless_reread_wrappedSource : ∃ template text again,
    Template.read wrappedSource "a.hbs" = .ok template ∧
      template.instrument.template.print = .ok text ∧ Template.read text "a.hbs" = .ok again ∧
      template.unwrapped.length = 1 ∧ again.unwrapped.length = again.strip.changes ∧
      ∀ conditional ∈ again.unwrapped, conditional.BranchesAgree text.toList := by
  have succeeds : ((Template.read wrappedSource "a.hbs").toOption.any fun template =>
      decide (template.PlainNames ∧ template.unwrapped.length = 1 ∧
        ∀ conditional ∈ template.unwrapped,
          conditional.BranchesAgree wrappedSource.toList)) = true := by decide +kernel
  obtain ⟨template, read, plainNames, one, lossless⟩ := Template.exists_of_read succeeds
  obtain ⟨text, again, prints, reads, -, counts, same⟩ :=
    strip_lossless_reread wrappedSource "a.hbs" template read (by decide) plainNames
  exact ⟨template, text, again, read, prints, reads, one, counts, same.mpr lossless⟩

/-- A conditional that asks like a probe, with another text in each branch. -/
def unlikeSource : String :=
  "\x7b\x7b#if (-probe-is-component \"a\" \"b\")\x7d\x7dA\x7b\x7belse\x7d\x7dB\x7b\x7b/if\x7d\x7d"

/-- Stripping can lose a text: the second branch of such a conditional. -/
theorem strip_unlikeSource : ∃ template,
    Template.read unlikeSource "a.hbs" = .ok template ∧
      template.strip.template.print = .ok "A" ∧ template.strip.changes = 1 ∧
      ∃ conditional ∈ template.unwrapped, ¬conditional.BranchesAgree unlikeSource.toList := by
  have succeeds : ((Template.read unlikeSource "a.hbs").toOption.any fun template =>
      decide (template.strip.template.print.toOption = some "A" ∧ template.strip.changes = 1 ∧
        ∃ conditional ∈ template.unwrapped,
          ¬conditional.BranchesAgree unlikeSource.toList)) = true := by decide +kernel
  obtain ⟨template, read, prints, holds⟩ := Template.exists_of_read succeeds
  cases printed : template.strip.template.print with
  | error span =>
    rw [printed] at prints
    cases prints
  | ok text =>
    rw [printed] at prints
    exact ⟨template, read, by rw [printed, Option.some.inj prints], holds⟩

end TagMigration
