/-
The spans of a template that was read tile its source. Content is spelled piece by piece with
nothing between the pieces, so the spans of its statements follow on one another; and since every
node has a text of its own that spells it, the same is seen of each node by a look at how it can
be spelled.
-/
import TagMigration.Proofs.Reading.Ordered

namespace TagMigration

namespace Reader

/-! ### Phrases -/

/-- The spans of a phrase tile the text between two offsets. -/
def Tiled (start stop : Nat) : Phrase → Prop
  | .content body => Tiles start stop (body.map Statement.span) ∧ Separated body
  | .inverse tags others => ∃ spans, InverseSpans tags others spans ∧ Tiles start stop spans

theorem Tiled.cons {offset stop : Nat} {piece : List Char} {statement : Statement}
    {body : List Statement} (more : Tiled (offset + byteSize piece) stop (.content body))
    (nonempty : piece ≠ []) (span : statement.span = some ⟨offset, offset + byteSize piece⟩)
    (ended : statement.isText = false ∨ startsWithText body = false) :
    Tiled offset stop (.content (statement :: body)) := by
  refine ⟨?_, .cons ended more.2⟩
  rw [List.map_cons, span]
  exact .cons nonempty more.1

theorem IsSingle.isText {offset : Nat} {text : List Char} {statement : Statement}
    (isSingle : IsSingle offset text statement) : statement.isText = false := by
  cases isSingle <;> rfl

/-- The spans of a phrase that was read tile the text that it was read from. -/
theorem Spelling.tiled {next : Option Char} {offset : Nat} {text : List Char} {phrase : Phrase}
    (spelling : Spelling next offset text phrase) :
    Tiled offset (offset + byteSize text) phrase := by
  induction spelling with
  | nil => exact ⟨rfl, List.isChain_nil⟩
  | text nonempty isRun ended more tiledMore =>
    rw [byteSize_append, ← Nat.add_assoc]
    exact tiledMore.cons nonempty rfl (.inr ended)
  | single takes more tiledMore =>
    have isSingle := single_yields.property takes
    have nonempty := ne_nil_of_takes takes fun _ => ⟨_, rfl⟩
    rw [byteSize_append, ← Nat.add_assoc]
    exact tiledMore.cons nonempty isSingle.span (.inl isSingle.isText)
  | element starts open' content ends more tiledChildren tiledMore =>
    have nonempty := ne_nil_of_takes starts fun _ => ⟨_, rfl⟩
    rw [byteSize_append, ← Nat.add_assoc]
    exact tiledMore.cons (by simp [nonempty]) rfl (.inl rfl)
  | block starts content others ends more tiledProgram tiledOthers tiledMore =>
    have nonempty := ne_nil_of_takes starts fun _ => ⟨_, rfl⟩
    rw [byteSize_append, ← Nat.add_assoc]
    exact tiledMore.cons (by simp [nonempty]) rfl (.inl rfl)
  | noInverse elseTrim elseSpan => exact ⟨[], .none elseSpan, rfl⟩
  | elseBody starts elseSpan content tiledBody =>
    have nonempty := ne_nil_of_takes starts fun _ => ⟨_, rfl⟩
    refine ⟨_, .body tiledBody.2, ?_⟩
    rw [elseSpan, byteSize_append, ← Nat.add_assoc]
    exact .cons nonempty tiledBody.1
  | elseBlock noElseTrim noElseSpan starts content others tiledProgram tiledOthers =>
    have nonempty := ne_nil_of_takes starts fun _ => ⟨_, rfl⟩
    exact ⟨_, .block noElseSpan _ _ _, tiles_single (by simp [nonempty])⟩

/-! ### Nodes -/

section Nodes

variable {source : List Char} {offset : Nat}

theorem ordered_of_takes {opening : List Char} {tag : String} {start : StartTag}
    (starts : Takes elementStart offset opening (tag, start))
    (stands : Stands source offset opening) :
    start.Ordered source offset (offset + byteSize opening) := by
  have read := starts []
  rw [List.append_nil] at read
  exact elementStart_ordered stands read

/-- An element without an end tag is its start tag. -/
theorem IsSingle.tiled {piece : List Char} {statement : Statement}
    (isSingle : IsSingle offset piece statement) (stands : Stands source offset piece) :
    (⟨statement, false⟩ : Node).Tiled source := by
  cases isSingle with
  | mustache => trivial
  | curlyComment => trivial
  | comment => trivial
  | element span startSpan endSpan alone start =>
    obtain ⟨start, starts, attributes, modifiers⟩ := start
    have ordered := ordered_of_takes starts stands
    refine ⟨_, _, span, startSpan, fun _ => ⟨rfl, endSpan, rfl⟩, fun open' => ?_, ?_, ?_, ?_, ?_⟩
    · rw [alone] at open'
      cases open'
    · rw [attributes]
      exact ordered.attributes
    · rw [modifiers]
      exact ordered.modifiers
    · rw [attributes]
      exact ordered.values
    · exact List.isChain_nil

/-- An element with an end tag is its start tag, its children and its end tag. -/
theorem tiled_element {opening inside closing : List Char} {tag : String} {start : StartTag}
    {children : List Statement} (starts : Takes elementStart offset opening (tag, start))
    (open' : (start.selfClosing || isVoidTag tag) = false)
    (content : Tiled (offset + byteSize opening) (offset + byteSize opening + byteSize inside)
      (.content children))
    (ends : Takes (elementEnd tag) (offset + byteSize (opening ++ inside)) closing ())
    (stands : Stands source offset opening) :
    (⟨.element (start.closed tag ⟨offset, offset + byteSize (opening ++ inside ++ closing)⟩
      ⟨offset, offset + byteSize opening⟩
      ⟨offset + byteSize (opening ++ inside), offset + byteSize (opening ++ inside ++ closing)⟩)
      children, false⟩ : Node).Tiled source := by
  have ordered := ordered_of_takes starts stands
  refine ⟨_, _, rfl, rfl, fun alone => ?_, fun _ => ?_, ordered.attributes, ordered.modifiers,
    ordered.values, content.2⟩
  · have absurd := alone.symm.trans open'
    cases absurd
  · have endTag := @tiles_single (offset + byteSize (opening ++ inside)) closing
      (ne_nil_of_takes ends fun _ => ⟨_, rfl⟩)
    rw [Nat.add_assoc, ← byteSize_append] at content endTag
    exact .cons (ne_nil_of_takes starts fun _ => ⟨_, rfl⟩) (content.1.append endTag)

/-- The opening tag, the program and what follows it tile a block up to its closing tag. -/
theorem tiles_block {start inside tail : List Char} {opening : BlockOpening}
    {program : List Statement} {others : List (Option Span)} (nonempty : start ≠ [])
    (isOpening : IsOpening offset start opening)
    (content : Tiles (offset + byteSize start) (offset + byteSize start + byteSize inside)
      (program.map Statement.span))
    (more : Tiles (offset + byteSize (start ++ inside))
      (offset + byteSize (start ++ inside) + byteSize tail) others) :
    Tiles offset (offset + byteSize (start ++ inside ++ tail))
      (some opening.span :: (program.map Statement.span ++ others)) := by
  rw [Nat.add_assoc, ← byteSize_append] at content more
  rw [isOpening.span]
  exact .cons nonempty (content.append more)

/-- Every node that was read from a text of its own is tiled. -/
theorem ReadFrom.tiled {node : Node} (readFrom : ReadFrom source node) : node.Tiled source := by
  cases readFrom with
  | @own offset _ _ stands span spelling =>
    cases spelling with
    | text nonempty isRun ended more =>
      intro empty
      have noText := congrArg String.toList empty
      rw [String.toList_ofList] at noText
      exact nonempty noText
    | single takes more => exact (single_yields.property takes).tiled stands.left
    | element starts open' content ends more =>
      exact tiled_element starts open' content.tiled ends stands.left.left.left
    | @block _ _ start inside tail closing rest opening elseTrim closeTrim elseSpan program _ inverse
        starts content others ends more =>
      obtain ⟨spans, between, tiles⟩ := others.tiled
      have opens := tiles_block (ne_nil_of_takes starts fun _ => ⟨_, rfl⟩)
        (blockStart_yields.property starts) content.tiled.1 tiles
      have closes := @tiles_single (offset + byteSize (start ++ inside ++ tail)) closing
        (ne_nil_of_takes ends fun _ => ⟨_, rfl⟩)
      rw [Nat.add_assoc, ← byteSize_append] at closes
      exact ⟨_, spans, rfl, between, rfl, opens.append closes, content.tiled.2⟩
  | chained stands span spelling =>
    cases spelling with
    | elseBlock noElseTrim noElseSpan starts content others =>
      obtain ⟨spans, between, tiles⟩ := others.tiled
      have opens := tiles_block (ne_nil_of_takes starts fun _ => ⟨_, rfl⟩)
        (elseOpening_yields.property starts) content.tiled.1 tiles
      exact ⟨_, spans, rfl, between, rfl, opens.append (show Tiles _ _ [] from rfl), content.tiled.2⟩

end Nodes

end Reader

/-! ### Where invocations begin -/

theorem nodeIds_cons (node : Node) (rest : List Node) :
    nodeIds (node :: rest) = nodeIds [node] ++ nodeIds rest := by
  rw [nodeIds, nodeIds, nodeIds, ← List.map_append, ← List.filterMap_append, List.singleton_append]

theorem nodeIds_append (first second : List Node) :
    nodeIds (first ++ second) = nodeIds first ++ nodeIds second := by
  rw [nodeIds, List.filterMap_append, List.map_append]
  rfl

theorem nodeIds_bodyNodes {chained : Bool} {statement : Statement} {body : List Statement}
    (here : nodeIds (⟨statement, chained⟩ :: statement.nodes) = statement.places)
    (more : nodeIds (bodyNodes chained body) = bodyPlaces body) :
    nodeIds (bodyNodes chained (statement :: body)) = bodyPlaces (statement :: body) := by
  rw [bodyNodes, bodyPlaces, ← List.cons_append, nodeIds_append, here, more]

theorem nodeIds_block (tags : BlockTags) (chained continued : Bool) (params : List String)
    {program : List Statement} {inverse : Option Program}
    (sameProgram : nodeIds (bodyNodes false program) = bodyPlaces program)
    (sameOthers : nodeIds (inverseNodes inverse) = inversePlaces inverse) :
    nodeIds (⟨.block tags ⟨program, params, continued⟩ inverse, chained⟩ ::
      (Statement.block tags ⟨program, params, continued⟩ inverse).nodes) =
        (Statement.block tags ⟨program, params, continued⟩ inverse).places := by
  rw [Statement.nodes, Statement.places, Program.nodes, Program.places, nodeIds_cons,
    nodeIds_append, sameProgram, sameOthers]
  rfl

/-- The invocations of a regular phrase begin where its nodes begin. -/
theorem Regular.nodeIds_nodes {phrase : Phrase} (regular : Regular phrase) :
    nodeIds phrase.nodes = phrase.places := by
  induction regular with
  | nil =>
    rw [Phrase.nodes, Phrase.places, bodyNodes, bodyPlaces]
    rfl
  | @leaf statement body isLeaf more sameMore =>
    refine nodeIds_bodyNodes ?_ sameMore
    cases statement with
    | block => cases isLeaf
    | element => cases isLeaf
    | _ => rw [Statement.nodes, Statement.places]; rfl
  | @element tags children body content more sameChildren sameMore =>
    refine nodeIds_bodyNodes ?_ sameMore
    rw [Statement.nodes, Statement.places, nodeIds_cons]
    exact sameChildren
  | @block tags program body params chained inverse content others more sameProgram sameOthers
      sameMore =>
    exact nodeIds_bodyNodes (nodeIds_block tags false chained params sameProgram sameOthers) sameMore
  | noInverse =>
    rw [Phrase.nodes, Phrase.places, inverseNodes, inversePlaces]
    rfl
  | elseBody content sameBody =>
    rw [Phrase.nodes, Phrase.places, inverseNodes, inversePlaces, Program.places]
    exact sameBody
  | @elseBlock tags chained program params bound continued inverse content others sameProgram
      sameOthers =>
    have noMore : nodeIds (bodyNodes true []) = bodyPlaces [] := by
      rw [bodyNodes, bodyPlaces]
      rfl
    rw [Phrase.nodes, Phrase.places, inverseNodes, inversePlaces, Program.places]
    exact nodeIds_bodyNodes (nodeIds_block chained true continued params sameProgram sameOthers)
      noMore

/-- The spans of a template that was read tile its source. -/
theorem tiled_of_read (source identity : String) (template : Template)
    (read : Template.read source identity = .ok template) : template.Tiled := by
  have readFrom := Template.readFrom_of_read read
  obtain ⟨body, rfl, spelling⟩ := Template.read_eq_ok.mp read
  have tiled := spelling.tiled
  have placed := spelling.placed
  rw [Nat.zero_add] at tiled
  rw [← spelling.regular.nodeIds_nodes] at placed
  exact ⟨tiled.1, tiled.2, fun node member => (readFrom node member).tiled, placed.known,
    placed.distinct⟩

/-- An element with attributes, a modifier and a void child, and a block with a chained `else`. -/
def framedSource : String :=
  "<a b=\"x\x7b\x7by\x7d\x7dz\" c \x7b\x7bon d\x7d\x7d>é<br></a>\x7b\x7b#if p\x7d\x7dq" ++
    "\x7b\x7belse if r\x7d\x7d\x7b\x7bs\x7d\x7d\x7b\x7belse\x7d\x7dt\x7b\x7b/if\x7d\x7d"

theorem tiled_of_read_framedSource : ∃ template,
    Template.read framedSource "a.hbs" = .ok template ∧
      nodeIds template.nodes = [some 36, some 46, some 59] ∧ template.Tiled := by
  have succeeds : ((Template.read framedSource "a.hbs").toOption.any fun template =>
      decide (nodeIds template.nodes = [some 36, some 46, some 59])) = true := by decide +kernel
  obtain ⟨template, read, ids⟩ := Template.exists_of_read succeeds
  exact ⟨template, read, ids, tiled_of_read _ _ template read⟩

end TagMigration
