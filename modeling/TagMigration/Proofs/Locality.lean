/-
Reading is local. A reader looks ahead for the end of a comment, of a value or of a run of
text, and it could be that what it finds lies in a neighbour. It never does: cut out of the source
at its span, a statement is read as itself, only at another offset. So statements can be moved
around as they are written.
-/
import TagMigration.Proofs.Reading.Nodes

namespace TagMigration

/-- What is spelled at an offset is spelled at the start, moved back by that offset. -/
theorem Reader.Spelling.atStart {place : Nat} {piece : List Char} {body : List Statement}
    (spelling : Spelling none place piece (.content body)) :
    ∃ base, Spelling none 0 piece (.content base) ∧ mapBody (moveSpan place) base = body := by
  have reads := spelling.readAs piece.length [] .endOfInput (by simp) rfl rfl
  have moved := contentWithin_shift place piece.length ⟨0, piece⟩
  rw [Cursor.shift, Nat.zero_add] at moved
  rw [List.append_nil, moved] at reads
  cases found : contentWithin piece.length ⟨0, piece⟩ with
  | error fault =>
    rw [found] at reads
    cases reads
  | ok result =>
    obtain ⟨⟨base, stop⟩, after⟩ := result
    rw [found, movedRead_ok, mapContent, Except.ok.injEq, Prod.mk.injEq, Prod.mk.injEq] at reads
    obtain ⟨⟨isBody, -⟩, afterEq⟩ := reads
    obtain ⟨spelled, rest, textEq, rfl, -, spelledBase⟩ :=
      contentWithin_spelling _ _ _ _ _ _ (Nat.le_refl _) found
    obtain rfl : rest = [] := congrArg Cursor.rest afterEq
    rw [List.append_nil] at textEq
    subst textEq
    exact ⟨base, spelledBase, isBody⟩

/-- A statement of a template that was read, at whatever depth, is read from the text at its span as
the only statement there, with every span moved back by the offset where the text was cut out. The
block of a chained `else` is the exception. -/
theorem read_slice (source identity other : String) (template : Template) (node : Node)
    (read : Template.read source identity = .ok template) (member : node ∈ template.nodes)
    (unchained : node.chained = false) :
    ∃ span text alone, node.statement.span = some span ∧
      slice? source.toList span = some text ∧
      Template.read (String.ofList text) other = .ok ⟨other, String.ofList text, [alone]⟩ ∧
      alone.mapSpans (moveSpan span.start) = node.statement := by
  cases Template.readFrom_of_read read node member with
  | chained => cases unchained
  | @own place piece statement stands span spelling =>
    obtain ⟨base, atStart, moved⟩ := spelling.atStart
    cases base with
    | nil => cases moved
    | cons alone rest =>
      obtain ⟨isStatement, noMore⟩ := List.cons.inj moved
      cases rest with
      | cons second rest => cases noMore
      | nil =>
        refine ⟨⟨place, place + byteSize piece⟩, piece, alone, span, stands.slice?, ?_, isStatement⟩
        refine Template.read_eq_ok.mpr ⟨[alone], rfl, ?_⟩
        rw [String.toList_ofList]
        exact atStart

/-- The block that `nestedSource` holds. -/
def nestedBlock : String :=
  "\x7b\x7b#x as |y|\x7d\x7d\\\x7b\x7by\x7d\x7d\x7b\x7belse if z\x7d\x7d<br>\x7b\x7b~/x\x7d\x7d"

theorem read_slice_nestedSource : ∃ template node alone,
    Template.read nestedSource "a.hbs" = .ok template ∧ node ∈ template.nodes ∧
      node.chained = false ∧ node.statement.span = some ⟨5, 48⟩ ∧
      Template.read nestedBlock "b.hbs" = .ok ⟨"b.hbs", nestedBlock, [alone]⟩ ∧
      alone.mapSpans (moveSpan 5) = node.statement := by
  have succeeds : ((Template.read nestedSource "a.hbs").toOption.any fun template =>
      decide ((template.nodes[2]?.any fun node =>
        decide (node.chained = false ∧ node.statement.span = some ⟨5, 48⟩)) = true)) = true := by
    decide +kernel
  obtain ⟨template, read, third⟩ := Template.exists_of_read succeeds
  obtain ⟨node, found, holds⟩ := (Option.any_eq_true _ _).mp third
  obtain ⟨unchained, isSpan⟩ := of_decide_eq_true holds
  have member : node ∈ template.nodes := List.mem_of_getElem? found
  obtain ⟨span, text, alone, isSame, slice, reads, moved⟩ :=
    read_slice nestedSource "a.hbs" "b.hbs" template node read member unchained
  obtain rfl : span = ⟨5, 48⟩ := Option.some.inj (isSame.symm.trans isSpan)
  have block : slice? nestedSource.toList ⟨5, 48⟩ = some nestedBlock.toList := by decide +kernel
  obtain rfl : text = nestedBlock.toList := Option.some.inj (slice.symm.trans block)
  rw [String.ofList_toList] at reads
  exact ⟨template, node, alone, read, member, unchained, isSpan, reads, moved⟩

end TagMigration
