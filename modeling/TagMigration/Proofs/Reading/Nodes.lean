/-
The nodes of a tree that was read, each on its own. Every statement of a tree has a text of its own
in the source, and in front of the end of the input that text spells the statement and nothing
else: what follows can change how a run of text is read, but the end of the input does not. The
block of a chained `else` is the exception. It has a text of its own too, but that text begins with
an `else` tag and is spelled as an inverse only.
-/
import TagMigration.Proofs.RoundTrip

namespace TagMigration

/-! ### Nodes -/

/-- A statement of a tree, and whether it is the block of a chained `else`. -/
structure Node where
  statement : Statement
  chained : Bool

mutual

/-- The nodes that a statement holds, at any depth. -/
def Statement.nodes : Statement → List Node
  | .block _ program inverse => program.nodes ++ inverseNodes inverse
  | .element _ children => bodyNodes false children
  | .text _ => []
  | .mustache _ => []
  | .comment _ => []
  | .curlyComment _ => []

/-- The nodes of a body at any depth, in document order. -/
def bodyNodes (chained : Bool) : List Statement → List Node
  | [] => []
  | statement :: rest => ⟨statement, chained⟩ :: (statement.nodes ++ bodyNodes chained rest)

/-- The nodes of the program of a block. -/
def Program.nodes : Program → List Node
  | ⟨body, _, _⟩ => bodyNodes false body

/-- The nodes of an inverse. -/
def inverseNodes : Option Program → List Node
  | none => []
  | some ⟨body, _, chained⟩ => bodyNodes chained body

end

/-- The nodes of a template. -/
def Template.nodes (template : Template) : List Node :=
  bodyNodes false template.body

/-- The nodes of a phrase. -/
def Phrase.nodes : Phrase → List Node
  | .content body => bodyNodes false body
  | .inverse _ others => inverseNodes others

theorem mem_bodyNodes_cons {node : Node} {chained : Bool} {statement : Statement}
    {rest : List Statement} : node ∈ bodyNodes chained (statement :: rest) ↔
      node = ⟨statement, chained⟩ ∨ node ∈ statement.nodes ∨ node ∈ bodyNodes chained rest := by
  rw [bodyNodes, List.mem_cons, List.mem_append]

/-- A statement of a tree is a node of it. -/
theorem Regular.mem_nodes {phrase : Phrase} (regular : Regular phrase) :
    ∀ statement ∈ phrase.statements, ⟨statement, false⟩ ∈ phrase.nodes := by
  induction regular with
  | nil => exact List.forall_mem_nil _
  | @leaf statement body isLeaf more inMore =>
    intro other member
    refine mem_bodyNodes_cons.mpr ?_
    rw [Phrase.statements, bodyStatements, Statement.inside_of_isLeaf isLeaf, List.nil_append] at member
    rcases List.mem_cons.mp member with rfl | further
    · exact .inl rfl
    · exact .inr (.inr (inMore other further))
  | @element tags children body content more inContent inMore =>
    intro other member
    refine mem_bodyNodes_cons.mpr ?_
    rcases List.mem_cons.mp member with rfl | member
    · exact .inl rfl
    · rcases List.mem_append.mp member with inside | further
      · exact .inr (.inl (inContent other inside))
      · exact .inr (.inr (inMore other further))
  | @block tags program body params chained inverse content others more inContent inOthers inMore =>
    intro other member
    refine mem_bodyNodes_cons.mpr ?_
    rcases List.mem_cons.mp member with rfl | member
    · exact .inl rfl
    · rcases List.mem_append.mp member with inside | further
      · rw [Statement.nodes]
        refine .inr (.inl (List.mem_append.mpr ?_))
        rcases List.mem_append.mp inside with first | second
        · exact .inl (inContent other first)
        · exact .inr (inOthers other second)
      · exact .inr (.inr (inMore other further))
  | noInverse => exact List.forall_mem_nil _
  | elseBody content inContent => exact inContent
  | @elseBlock tags chained program params bound continued inverse content others inContent
      inOthers =>
    intro other member
    rw [Phrase.statements, inverseStatements_chain] at member
    rw [Phrase.nodes, inverseNodes, mem_bodyNodes_cons, Statement.nodes, List.mem_append]
    rcases List.mem_append.mp member with first | second
    · exact .inr (.inl (.inl (inContent other first)))
    · exact .inr (.inl (.inr (inOthers other second)))

namespace Reader

/-! ### What a node was read from -/

/-- The text of a node stands in the source at its span, and spells the node and nothing else. -/
inductive ReadFrom (source : List Char) : Node → Prop where
  | own {place : Nat} {piece : List Char} {statement : Statement}
    (stands : Stands source place piece)
    (span : statement.span = some ⟨place, place + byteSize piece⟩)
    (spelling : Spelling none place piece (.content [statement])) :
    ReadFrom source ⟨statement, false⟩
  | chained {place : Nat} {piece : List Char} {tags : BlockTags} {statement : Statement}
    (stands : Stands source place piece)
    (span : statement.span = some ⟨place, place + byteSize piece⟩)
    (spelling : Spelling (some '{') place piece (.inverse tags (some ⟨[statement], [], true⟩))) :
    ReadFrom source ⟨statement, true⟩

theorem IsSingle.span {offset : Nat} {text : List Char} {statement : Statement}
    (isSingle : IsSingle offset text statement) :
    statement.span = some ⟨offset, offset + byteSize text⟩ := by
  cases isSingle with
  | mustache isMustache => exact isMustache.span
  | curlyComment span => exact span
  | comment span => exact span
  | element span => exact span

theorem IsSingle.nodes {offset : Nat} {text : List Char} {statement : Statement}
    (isSingle : IsSingle offset text statement) : statement.nodes = [] := by
  cases isSingle with
  | mustache isMustache => rw [Statement.nodes]
  | curlyComment span => rw [Statement.nodes]
  | comment span => rw [Statement.nodes]
  | element span => rw [Statement.nodes, bodyNodes]

/-- Every node of a phrase was read from a text of its own, inside the text of the phrase. Only a
run at the end of the phrase needs to know what follows. -/
theorem Spelling.readFrom {source : List Char} {next : Option Char} {offset : Nat}
    {text : List Char} {phrase : Phrase} (spelling : Spelling next offset text phrase) :
    (∃ back, EndsRun back ∧ back.head? = next) → Stands source offset text →
    ∀ node ∈ phrase.nodes, ReadFrom source node := by
  have inElement : ∃ back, EndsRun back ∧ back.head? = some '<' := ⟨['<', '/'], .inr rfl, rfl⟩
  have inBlock : ∃ back, EndsRun back ∧ back.head? = some '{' := ⟨['{', '{'], .inr rfl, rfl⟩
  induction spelling with
  | nil =>
    intro _ _ node member
    rw [Phrase.nodes, bodyNodes] at member
    cases member
  | @text next offset run rest body nonempty isRun ended more readMore =>
    intro follows stands node member
    rcases mem_bodyNodes_cons.mp member with rfl | inside | further
    · obtain ⟨back, ends, head⟩ := follows
      have alone : IsRun (([] : List Char).head?.or none) run :=
        isRun.alone (more.endsRun_append ended ends) (by rw [head?_append_or, head])
      exact .own stands.left rfl (Spelling.text nonempty alone rfl (.nil _ _)).alone
    · rw [Statement.nodes] at inside
      cases inside
    · exact readMore follows stands.right node further
  | @single next offset piece rest statement body takes more readMore =>
    intro follows stands node member
    have isSingle := single_yields.property takes
    rcases mem_bodyNodes_cons.mp member with rfl | inside | further
    · exact .own stands.left isSingle.span (Spelling.single takes (.nil _ _)).alone
    · rw [isSingle.nodes] at inside
      cases inside
    · exact readMore follows stands.right node further
  | @element next offset opening inside closing rest tag start children body starts open' content
      ends more readChildren readMore =>
    intro follows stands node member
    rcases mem_bodyNodes_cons.mp member with rfl | inner | further
    · exact .own stands.left rfl (Spelling.element starts open' content ends (.nil _ _)).alone
    · rw [Statement.nodes] at inner
      exact readChildren inElement stands.left.left.right node inner
    · exact readMore follows stands.right node further
  | @block next offset start inside tail closing rest opening elseTrim closeTrim elseSpan program
      body inverse starts content others ends more readProgram readOthers readMore =>
    intro follows stands node member
    rcases mem_bodyNodes_cons.mp member with rfl | inner | further
    · exact .own stands.left rfl (Spelling.block starts content others ends (.nil _ _)).alone
    · rw [Statement.nodes] at inner
      rcases List.mem_append.mp inner with first | second
      · exact readProgram inBlock stands.left.left.left.right node first
      · exact readOthers inBlock stands.left.left.right node second
    · exact readMore follows stands.right node further
  | noInverse =>
    intro _ _ node member
    rw [Phrase.nodes, inverseNodes] at member
    cases member
  | elseBody starts elseSpan content readBody =>
    intro _ stands node member
    rw [Phrase.nodes, inverseNodes] at member
    exact readBody inBlock stands.right node member
  | @elseBlock offset start inside tail tags opening elseTrim elseSpan program inverse noElseTrim
      noElseSpan starts content others readProgram readOthers =>
    intro _ stands node member
    rw [Phrase.nodes, inverseNodes] at member
    rcases mem_bodyNodes_cons.mp member with rfl | inner | further
    · exact .chained stands rfl (.elseBlock noElseTrim noElseSpan starts content others)
    · rw [Statement.nodes] at inner
      rcases List.mem_append.mp inner with first | second
      · exact readProgram inBlock stands.left.right node first
      · exact readOthers inBlock stands.right node second
    · rw [bodyNodes] at further
      cases further

end Reader

/-- Every node of a template that was read was read from a text of its own. -/
theorem Template.readFrom_of_read {source identity : String} {template : Template}
    (read : Template.read source identity = .ok template) :
    ∀ node ∈ template.nodes, Reader.ReadFrom source.toList node := by
  obtain ⟨body, rfl, spelling⟩ := Template.read_eq_ok.mp read
  exact spelling.readFrom ⟨[], .inl rfl, rfl⟩ (stands_self source.toList)

end TagMigration
