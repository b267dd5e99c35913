/-
Neighbouring texts made one. A tag that stands for a block begins with a text of its own, a new
line, and the content of the block may begin with another. Printing does not tell two texts from
one, and reading never yields two, so what is read back from a printed tree is that tree with
neighbouring texts merged.
-/
import TagMigration.Proofs.Tree.Print

namespace TagMigration

/-- A statement in front of a body; two texts that meet are made one. -/
def joinText : Statement → List Statement → List Statement
  | .text first, .text second :: rest => .text ⟨first.chars ++ second.chars, none⟩ :: rest
  | statement, rest => statement :: rest

theorem joinText_cases (statement : Statement) (rest : List Statement) :
    joinText statement rest = statement :: rest ∨
      ∃ first second others, statement = .text first ∧ rest = .text second :: others ∧
        joinText statement rest = .text ⟨first.chars ++ second.chars, none⟩ :: others := by
  unfold joinText
  split
  · exact .inr ⟨_, _, _, rfl, rfl, rfl⟩
  · exact .inl rfl

mutual

/-- A statement with the neighbouring texts in it merged. -/
def Statement.merge : Statement → Statement
  | .block tags program inverse => .block tags program.merge (mergeInverse inverse)
  | .element tags children => .element tags (mergeBody children)
  | .text run => .text run
  | .mustache tag => .mustache tag
  | .comment remark => .comment remark
  | .curlyComment remark => .curlyComment remark

/-- A body with neighbouring texts merged, at any depth. -/
def mergeBody : List Statement → List Statement
  | [] => []
  | statement :: rest => joinText statement.merge (mergeBody rest)

/-- A program with neighbouring texts merged. -/
def Program.merge : Program → Program
  | ⟨body, params, chained⟩ => ⟨mergeBody body, params, chained⟩

/-- An inverse with neighbouring texts merged. -/
def mergeInverse : Option Program → Option Program
  | none => none
  | some program => some program.merge

end

/-- A phrase with neighbouring texts merged. -/
def Phrase.merge : Phrase → Phrase
  | .content body => .content (mergeBody body)
  | .inverse tags others => .inverse tags (mergeInverse others)

theorem Statement.merge_of_isLeaf {statement : Statement} (isLeaf : statement.isLeaf = true) :
    statement.merge = statement := by
  cases statement <;> first | rfl | cases isLeaf

/-- A chained block has no neighbour to be merged with. -/
theorem mergeInverse_chain (tags : BlockTags) (program : List Statement) (params : List String)
    (continued : Bool) (inverse : Option Program) (bound : List String) :
    mergeInverse (some ⟨[.block tags ⟨program, params, continued⟩ inverse], bound, true⟩) =
      some ⟨[.block tags ⟨mergeBody program, params, continued⟩ (mergeInverse inverse)], bound,
        true⟩ := by
  rw [mergeInverse, Program.merge, mergeBody, mergeBody, Statement.merge, Program.merge, joinText]
  exact fun _ _ _ same => Statement.noConfusion same

/-! ### Printing -/

section Print

variable {source : List Char}

/-- Two texts print as one. -/
theorem printBody_joinText (statement : Statement) (rest : List Statement) :
    printBody source (joinText statement rest) = printBody source (statement :: rest) := by
  unfold joinText
  split
  · next first second rest =>
    simp only [printBody, Statement.print, String.toList_append]
    cases printBody source rest with
    | error span => rfl
    | ok text => exact congrArg Except.ok (List.append_assoc _ _ _)
  · rfl

theorem printBody_merge_cons {statement : Statement} {rest : List Statement}
    (first : statement.merge.print source = statement.print source)
    (more : printBody source (mergeBody rest) = printBody source rest) :
    printBody source (mergeBody (statement :: rest)) = printBody source (statement :: rest) := by
  rw [mergeBody, printBody_joinText, printBody, first, more, printBody]

/-- A phrase prints the same with its texts merged. -/
theorem Regular.print_merge {phrase : Phrase} (regular : Regular phrase) :
    phrase.merge.print source = phrase.print source := by
  induction regular with
  | nil => rfl
  | leaf isLeaf more inMore =>
    exact printBody_merge_cons (by rw [Statement.merge_of_isLeaf isLeaf]) inMore
  | @element tags children body content more inContent inMore =>
    have inside : printBody source (mergeBody children) = printBody source children := inContent
    refine printBody_merge_cons ?_ inMore
    rw [Statement.merge, Statement.print, Statement.print, inside]
  | @block tags program body params chained inverse content others more inContent inOthers inMore =>
    have inside : printBody source (mergeBody program) = printBody source program := inContent
    have behind : printInverse source tags (mergeInverse inverse) = printInverse source tags inverse :=
      inOthers
    refine printBody_merge_cons ?_ inMore
    rw [Statement.merge, Statement.print, Statement.print, Program.merge, Program.print,
      Program.print, inside, behind]
  | noInverse => rfl
  | @elseBody tags body params content inContent =>
    have inside : printBody source (mergeBody body) = printBody source body := inContent
    rw [Phrase.merge, Phrase.print, Phrase.print, mergeInverse, Program.merge, printInverse,
      printInverse, inside]
  | @elseBlock tags chained program params bound continued inverse content others inContent
      inOthers =>
    have inside : printBody source (mergeBody program) = printBody source program := inContent
    have behind : printInverse source chained (mergeInverse inverse) =
        printInverse source chained inverse := inOthers
    rw [Phrase.merge, Phrase.print, Phrase.print, mergeInverse_chain, printInverse, printInverse,
      printChain, Program.print, inside, behind, printChain, printChain, Program.print]
    rfl

end Print

end TagMigration
