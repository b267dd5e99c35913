/-
Trees taken apart. A tree is content, and content is a list of statements, one of which may
be a block that holds content again and an inverse behind it. The inverse is nothing, an
`else` tag with content, or a chained block. A phrase is either of the two, so that one
induction runs over a whole tree. Such an induction needs every chained inverse to be one
block and nothing else, which is what a regular phrase is.
-/
import TagMigration.Proofs.Tree.Spans
import TagMigration.Template.Printer

namespace TagMigration

/-- Content, or what stands between the program and the closing tag of a block with the given
tags. -/
inductive Phrase where
  | content (body : List Statement)
  | inverse (tags : BlockTags) (others : Option Program)

namespace Phrase

/-- The text of a phrase. -/
def print (source : List Char) : Phrase → Printed
  | .content body => printBody source body
  | .inverse tags others => printInverse source tags others

/-- Two phrases are alike if they are equal up to spans. The tags around an inverse are no part of
it. -/
def Alike : Phrase → Phrase → Prop
  | .content body, .content other => mapBody eraseSpan body = mapBody eraseSpan other
  | .inverse _ others, .inverse _ other => mapInverse eraseSpan others = mapInverse eraseSpan other
  | .content _, .inverse .. => False
  | .inverse .., .content _ => False

end Phrase

/-! ### Statements at any depth -/

mutual

/-- The statements that a statement holds, at any depth. The block of a chained `else` is none of
them, though what it holds is. -/
def Statement.inside : Statement → List Statement
  | .block _ program inverse => program.statements ++ inverseStatements inverse
  | .element _ children => bodyStatements children
  | .text _ => []
  | .mustache _ => []
  | .comment _ => []
  | .curlyComment _ => []

/-- The statements of a body at any depth, in document order. -/
def bodyStatements : List Statement → List Statement
  | [] => []
  | statement :: rest => statement :: (statement.inside ++ bodyStatements rest)

/-- The statements of a program at any depth. -/
def Program.statements : Program → List Statement
  | ⟨body, _, _⟩ => bodyStatements body

/-- The statements of an inverse at any depth. -/
def inverseStatements : Option Program → List Statement
  | none => []
  | some ⟨body, _, true⟩ => chainStatements body
  | some ⟨body, _, false⟩ => bodyStatements body

/-- What the statements of a chained inverse hold. -/
def chainStatements : List Statement → List Statement
  | [] => []
  | statement :: rest => statement.inside ++ chainStatements rest

end

/-- The statements of a phrase at any depth. -/
def Phrase.statements : Phrase → List Statement
  | .content body => bodyStatements body
  | .inverse _ others => inverseStatements others

theorem inverseStatements_chain (tags : BlockTags) (program : List Statement)
    (params : List String) (continued : Bool) (inverse : Option Program) (bound : List String) :
    inverseStatements (some ⟨[.block tags ⟨program, params, continued⟩ inverse], bound, true⟩) =
      bodyStatements program ++ inverseStatements inverse := by
  rw [inverseStatements, chainStatements, chainStatements, List.append_nil]
  rfl

theorem mem_statements_more {statement other : Statement} {body : List Statement}
    (member : other ∈ bodyStatements body) : other ∈ bodyStatements (statement :: body) :=
  List.mem_cons_of_mem _ (List.mem_append_right _ member)

theorem mem_statements_inside {statement other : Statement} {body : List Statement}
    (member : other ∈ statement.inside) : other ∈ bodyStatements (statement :: body) :=
  List.mem_cons_of_mem _ (List.mem_append_left _ member)

section ForAll

variable {property : Statement → Prop} {body : List Statement}

/-- What holds of all statements of a body holds of the first one, of what that one holds and of
the rest. -/
theorem forall_statements_cons {statement : Statement} :
    (∀ other ∈ (Phrase.content (statement :: body)).statements, property other) ↔
      property statement ∧ (∀ other ∈ statement.inside, property other) ∧
        ∀ other ∈ (Phrase.content body).statements, property other := by
  rw [Phrase.statements, bodyStatements, List.forall_mem_cons, List.forall_mem_append]
  rfl

variable {tags : BlockTags} {program : List Statement} {params : List String} {chained : Bool}
  {inverse : Option Program}

theorem forall_statements_block :
    (∀ other ∈ (Phrase.content (.block tags ⟨program, params, chained⟩ inverse :: body)).statements,
        property other) ↔
      property (.block tags ⟨program, params, chained⟩ inverse) ∧
        (∀ other ∈ (Phrase.content program).statements, property other) ∧
        (∀ other ∈ (Phrase.inverse tags inverse).statements, property other) ∧
        ∀ other ∈ (Phrase.content body).statements, property other := by
  rw [forall_statements_cons, Statement.inside, List.forall_mem_append, and_assoc]
  rfl

theorem forall_statements_chain {outer : BlockTags} {bound : List String} :
    (∀ other ∈ (Phrase.inverse outer
        (some ⟨[.block tags ⟨program, params, chained⟩ inverse], bound, true⟩)).statements,
        property other) ↔
      (∀ other ∈ (Phrase.content program).statements, property other) ∧
        ∀ other ∈ (Phrase.inverse tags inverse).statements, property other := by
  simp only [Phrase.statements, inverseStatements_chain, List.forall_mem_append]

end ForAll

/-- The name that a statement invokes. -/
def Statement.name? : Statement → Option String
  | .mustache tag => tag.call.callee.name?
  | .block tags _ _ => tags.call.callee.name?
  | .text _ => none
  | .element .. => none
  | .comment _ => none
  | .curlyComment _ => none

/-! ### Where invocations begin -/

/-- The offset at which a node was read. -/
def startOf (span : Option Span) : Option Nat :=
  span.map Span.start

mutual

/-- Where the inline tags and blocks of a statement begin, in document order, those of chained
blocks included. -/
def Statement.places : Statement → List (Option Nat)
  | .mustache tag => [startOf tag.span]
  | .block tags program inverse => startOf tags.span :: (program.places ++ inversePlaces inverse)
  | .element _ children => bodyPlaces children
  | .text _ => []
  | .comment _ => []
  | .curlyComment _ => []

/-- Where the inline tags and blocks of a body begin. -/
def bodyPlaces : List Statement → List (Option Nat)
  | [] => []
  | statement :: rest => statement.places ++ bodyPlaces rest

/-- Where the inline tags and blocks of a program begin. -/
def Program.places : Program → List (Option Nat)
  | ⟨body, _, _⟩ => bodyPlaces body

/-- Where the inline tags and blocks of an inverse begin. -/
def inversePlaces : Option Program → List (Option Nat)
  | none => []
  | some program => program.places

end

/-- Where the inline tags and blocks of a phrase begin. -/
def Phrase.places : Phrase → List (Option Nat)
  | .content body => bodyPlaces body
  | .inverse _ others => inversePlaces others

/-! ### Regular phrases -/

/-- Whether a statement holds no content. -/
def Statement.isLeaf : Statement → Bool
  | .text _ => true
  | .mustache _ => true
  | .comment _ => true
  | .curlyComment _ => true
  | .block .. => false
  | .element .. => false

/-- In a regular phrase every chained inverse is one block and nothing else. -/
inductive Regular : Phrase → Prop where
  | nil : Regular (.content [])
  | leaf {statement : Statement} {body : List Statement} (isLeaf : statement.isLeaf = true)
    (more : Regular (.content body)) : Regular (.content (statement :: body))
  | element {tags : ElementTags} {children body : List Statement}
    (content : Regular (.content children)) (more : Regular (.content body)) :
    Regular (.content (.element tags children :: body))
  | block {tags : BlockTags} {program body : List Statement} {params : List String}
    {chained : Bool} {inverse : Option Program} (content : Regular (.content program))
    (others : Regular (.inverse tags inverse)) (more : Regular (.content body)) :
    Regular (.content (.block tags ⟨program, params, chained⟩ inverse :: body))
  | noInverse {tags : BlockTags} : Regular (.inverse tags none)
  | elseBody {tags : BlockTags} {body : List Statement} {params : List String}
    (content : Regular (.content body)) :
    Regular (.inverse tags (some ⟨body, params, false⟩))
  | elseBlock {tags chained : BlockTags} {program : List Statement} {params bound : List String}
    {continued : Bool} {inverse : Option Program} (content : Regular (.content program))
    (others : Regular (.inverse chained inverse)) :
    Regular (.inverse tags
      (some ⟨[.block chained ⟨program, params, continued⟩ inverse], bound, true⟩))

theorem Statement.inside_of_isLeaf {statement : Statement} (isLeaf : statement.isLeaf = true) :
    statement.inside = [] := by
  cases statement <;> first | rfl | cases isLeaf

end TagMigration
