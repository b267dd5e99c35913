/-
Taking the probes out again. Every conditional of the form that a probe has is replaced
by the content of its first branch, which is stripped as well. Only the statements of a
body are looked at: the block of a chained `else` is no conditional of its own.
-/
import TagMigration.Pass.Probe

namespace TagMigration

namespace Probe

mutual

/-- A statement with the probes inside it taken out, and their number. -/
def stripInside : Statement → Statement × Nat
  | .block tags program inverse =>
    let (program, first) := stripProgram program
    let (inverse, second) := stripInverse inverse
    (.block tags program inverse, first + second)
  | .element tags children =>
    let (children, count) := stripBody children
    (.element tags children, count)
  | .text run => (.text run, 0)
  | .mustache tag => (.mustache tag, 0)
  | .comment remark => (.comment remark, 0)
  | .curlyComment remark => (.curlyComment remark, 0)

/-- A body with its probes taken out, and their number. -/
def stripBody : List Statement → List Statement × Nat
  | [] => ([], 0)
  | .block tags program inverse :: rest =>
    let (stripped, first) := stripProgram program
    let (more, second) := stripBody rest
    if isWrapper tags program inverse then (stripped.body ++ more, first + second + 1)
    else
      let (inverse, third) := stripInverse inverse
      (.block tags stripped inverse :: more, first + second + third)
  | statement :: rest =>
    let (statement, first) := stripInside statement
    let (more, second) := stripBody rest
    (statement :: more, first + second)

/-- A program with its probes taken out, and their number. -/
def stripProgram : Program → Program × Nat
  | ⟨body, params, chained⟩ =>
    let (body, count) := stripBody body
    (⟨body, params, chained⟩, count)

/-- An inverse with its probes taken out, and their number. -/
def stripInverse : Option Program → Option Program × Nat
  | none => (none, 0)
  | some ⟨body, params, true⟩ =>
    let (body, count) := stripChain body
    (some ⟨body, params, true⟩, count)
  | some ⟨body, params, false⟩ =>
    let (body, count) := stripBody body
    (some ⟨body, params, false⟩, count)

/-- The body of a chained inverse with the probes inside its statements taken out, and their
number. -/
def stripChain : List Statement → List Statement × Nat
  | [] => ([], 0)
  | statement :: rest =>
    let (statement, first) := stripInside statement
    let (more, second) := stripChain rest
    (statement :: more, first + second)

end

end Probe

/-- Takes every probe out of a template. -/
def Template.strip (template : Template) : PassResult :=
  let (body, count) := Probe.stripBody template.body
  ⟨{ template with body := body }, count⟩

end TagMigration
