/-
What probing wraps. An invocation is ambiguous if nothing in the template settles what its name
stands for: no third brace, no construct of the language, no `this`, no argument, no property and
no block param around it. Instrumenting a template that was read is a plain recursion, without a
list of places: it goes through everything but the conditionals that stand in the source, and wraps
the ambiguous invocations and nothing else.
-/
import TagMigration.Proofs.Instrumented
import TagMigration.Proofs.Reading.Nodes

namespace TagMigration

/-! ### Names around a place -/

/-- The names that the binders around a place bind. -/
def Scope.names (scope : Scope) : List String :=
  scope.frames.flatten

theorem Scope.isLocal_iff {scope : Scope} {name : String} :
    scope.isLocal name = true ↔ name ∈ scope.names := by
  simp only [isLocal, names, List.any_eq_true, List.contains_iff_mem, List.mem_flatten]

/-! ### Ambiguous invocations -/

/-- Where the given names are bound, only the running application knows what the name stands for. -/
structure Name.Open (bound : List String) (name : String) : Prop where
  notReserved : name ∉ Name.reserved
  notThis : name ≠ "this"
  notOfThis : ¬"this.".toList <+: name.toList
  notArgument : ¬['@'] <+: name.toList
  noTail : '.' ∉ name.toList
  unbound : name ∉ bound

/-- A statement invokes an open name, as an inline tag with two braces or as a block. -/
inductive Statement.Ambiguous (bound : List String) (name : String) : Statement → Prop where
  | inline {tag : Mustache} {span : Option Span} (escaped : tag.trusting = false)
    (callee : tag.call.callee = .path name span) (isOpen : Name.Open bound name) :
    Statement.Ambiguous bound name (.mustache tag)
  | block {tags : BlockTags} {program : Program} {inverse : Option Program} {span : Option Span}
    (callee : tags.call.callee = .path name span) (isOpen : Name.Open bound name) :
    Statement.Ambiguous bound name (.block tags program inverse)

theorem Name.head_of_noTail {name : String} (noTail : '.' ∉ name.toList) :
    Name.head name = name := by
  have all : ∀ char ∈ name.toList, (char != '.') = true := by
    intro char member
    refine bne_iff_ne.mpr ?_
    rintro rfl
    exact noTail member
  rw [head, ← List.append_nil name.toList, List.takeWhile_append_of_pos all, List.takeWhile_nil,
    List.append_nil, String.ofList_toList]

/-- The tests that settle a name, one after the other. -/
theorem Name.open_iff {scope : Scope} {name : String} :
    Name.Open scope.names name ↔ Name.isReserved name = false ∧
      (Name.isThis name || Name.isArgument name || Name.hasTail name ||
        scope.isLocal (Name.head name)) = false := by
  simp only [← Bool.not_eq_true, Bool.or_eq_true, not_or, isReserved, isThis, isArgument, hasTail,
    List.contains_iff_mem, List.isPrefixOf_iff_prefix, beq_iff_eq, Scope.isLocal_iff]
  constructor
  · intro isOpen
    rw [head_of_noTail isOpen.noTail]
    exact ⟨isOpen.notReserved, ⟨⟨⟨isOpen.notThis, isOpen.notOfThis⟩, isOpen.notArgument⟩,
      isOpen.noTail⟩, isOpen.unbound⟩
  · rintro ⟨notReserved, ⟨⟨⟨notThis, notOfThis⟩, notArgument⟩, noTail⟩, unbound⟩
    rw [head_of_noTail noTail] at unbound
    exact ⟨notReserved, notThis, notOfThis, notArgument, noTail, unbound⟩

theorem Expression.name?_eq_some {callee : Expression} {name : String} :
    callee.name? = some name ↔ ∃ span, callee = .path name span := by
  cases callee <;> simp [Expression.name?]

/-- An invocation is ambiguous if its output is escaped and it calls a path with an open name. -/
theorem Invocation.classify_eq_ambiguous {invocation : Invocation} {scope : Scope} {name : String} :
    invocation.classify scope = .ambiguous name ↔
      invocation.trusting = false ∧ invocation.call.callee.name? = some name ∧
        Name.Open scope.names name := by
  rw [classify, Name.open_iff]
  cases invocation.trusting with
  | true => simp
  | false =>
    cases invocation.call.callee.name? with
    | none => simp
    | some found =>
      simp only [Bool.false_eq_true, if_false, Option.some.injEq, true_and]
      cases reserved : Name.isReserved found with
      | true =>
        simp only [if_true, reduceCtorEq, false_iff]
        rintro ⟨rfl, notReserved, -⟩
        rw [reserved] at notReserved
        cases notReserved
      | false =>
        rw [if_neg Bool.false_ne_true]
        split
        · next settled =>
          simp only [reduceCtorEq, false_iff]
          rintro ⟨rfl, -, notSettled⟩
          rw [settled] at notSettled
          cases notSettled
        · next notSettled =>
          rw [InvocationClass.ambiguous.injEq]
          refine ⟨?_, And.left⟩
          rintro rfl
          exact ⟨rfl, reserved, Bool.eq_false_iff.mpr notSettled⟩

/-- The name that a pass takes for ambiguous is one. -/
theorem Probe.ambiguousName?_eq_some {scope : Scope} {statement : Statement} {name : String} :
    ambiguousName? scope statement = some name ↔ statement.Ambiguous scope.names name := by
  have found : ambiguousName? scope statement = some name ↔ ∃ invocation,
      statement.invocation? = some invocation ∧ invocation.classify scope = .ambiguous name := by
    rw [ambiguousName?, Option.bind_eq_some_iff]
    refine exists_congr fun invocation => and_congr_right fun _ => ?_
    cases invocation.classify scope <;> simp
  rw [found]
  simp only [Invocation.classify_eq_ambiguous, Expression.name?_eq_some]
  constructor
  · rintro ⟨invocation, invoked, escaped, ⟨span, callee⟩, isOpen⟩
    cases statement with
    | mustache tag =>
      cases invoked
      exact .inline escaped callee isOpen
    | block tags program inverse =>
      cases invoked
      exact .block callee isOpen
    | _ => cases invoked
  · rintro (⟨escaped, callee, isOpen⟩ | ⟨callee, isOpen⟩)
    · exact ⟨_, rfl, escaped, ⟨_, callee⟩, isOpen⟩
    · exact ⟨_, rfl, rfl, ⟨_, callee⟩, isOpen⟩

/-! ### What instrumenting wraps -/

/-- Probing puts conditionals around ambiguous invocations and replaces nothing else. -/
theorem Probe.replace?_eq_some {identity : String} {scope : Scope}
    {statement replacement : Statement} :
    (Probe.rule identity).replace? scope statement = some replacement ↔
      ∃ name, statement.Ambiguous scope.names name ∧
        replacement = conditional name identity statement := by
  rw [rule, Option.map_eq_some_iff]
  simp only [ambiguousName?_eq_some, eq_comm (a := replacement)]

/-- A node that was read is left alone if it has the form of a conditional. -/
theorem Probe.leaves_of_readFrom {source : List Char} {node : Node} (identity : String)
    (readFrom : Reader.ReadFrom source node) :
    (Probe.rule identity).leaves node.statement = isConditional node.statement := by
  have spanned : node.statement.span.isSome = true := by
    cases readFrom with
    | own stands span spelling => rw [span]; rfl
    | chained stands span spelling => rw [span]; rfl
  cases isStatement : node.statement with
  | block tags program inverse =>
    rw [isStatement] at spanned
    exact congrArg (· && isWrapper tags program inverse) spanned
  | _ => rfl

/-- Instrumenting a template that was read is a plain recursion, which keeps no list of places. It
leaves the conditionals alone that stand in the source. Of every other statement it goes through
the content first, and then it puts the statement into a conditional, in both branches, exactly if
the statement is an ambiguous invocation under the names that are bound around it. The number of
changes is the number of these replacements. -/
theorem instrument_of_read (source identity : String) (template : Template)
    (read : Template.read source identity = .ok template) :
    let rewritten := (Probe.rule identity).rewriteBody .empty template.body
    template.instrument = ⟨{ template with body := rewritten.1 }, rewritten.2⟩ ∧
      (∀ node ∈ template.nodes,
        (Probe.rule identity).leaves node.statement = Probe.isConditional node.statement) ∧
      ∀ scope statement replacement,
        (Probe.rule identity).replace? scope statement = some replacement ↔
          ∃ name, statement.Ambiguous scope.names name ∧
            replacement = Probe.conditional name identity statement := by
  have readFrom := Template.readFrom_of_read read
  obtain ⟨body, rfl, spelling⟩ := Template.read_eq_ok.mp read
  exact ⟨Rule.run_of_spelling (Probe.rule_onInvocations identity) spelling,
    fun node member => Probe.leaves_of_readFrom identity (readFrom node member),
    fun _ _ _ => Probe.replace?_eq_some⟩

/-- Names that are bound, an `else` tag that calls, a conditional, and two invocations that are
ambiguous. -/
def scopedSource : String :=
  "\x7b\x7b#each xs as |x|\x7d\x7d\x7b\x7bx\x7d\x7d\x7b\x7brow\x7d\x7d" ++
    "\x7b\x7belse nav\x7d\x7d<a as |tip|>\x7b\x7btip\x7d\x7d\x7b\x7bx\x7d\x7d</a>\x7b\x7b/each\x7d\x7d" ++
    "\x7b\x7b#if (-probe-is-component \"y\" \"\")\x7d\x7d\x7b\x7by\x7d\x7d" ++
    "\x7b\x7belse\x7d\x7d\x7b\x7by\x7d\x7d\x7b\x7b/if\x7d\x7d"

theorem instrument_scopedSource : ∃ template,
    Template.read scopedSource "a.hbs" = .ok template ∧
      (bodyStatements template.body).any Probe.isConditional = true ∧
      ((Probe.rule "a.hbs").rewriteBody .empty template.body).2 = 2 ∧
      template.instrument.template.body =
        ((Probe.rule "a.hbs").rewriteBody .empty template.body).1 ∧
      template.instrument.changes = 2 := by
  have succeeds : ((Template.read scopedSource "a.hbs").toOption.any fun template =>
      decide ((bodyStatements template.body).any Probe.isConditional = true ∧
        ((Probe.rule "a.hbs").rewriteBody .empty template.body).2 = 2)) = true := by
    decide +kernel
  obtain ⟨template, read, conditional, two⟩ := Template.exists_of_read succeeds
  obtain ⟨same, -, -⟩ := instrument_of_read scopedSource "a.hbs" template read
  exact ⟨template, read, conditional, two, by rw [same], by rw [same]; exact two⟩

end TagMigration
