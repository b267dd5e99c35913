/-
What the entry of a file says. The number of changes comes from the tree, the status from comparing
two texts, and the digests from the bytes; they never contradict each other. A file that did not
fail has the content whose digest is reported, and it was written for a change of the text only.
That instrumenting and stripping change the text exactly if they count a change is what growing
texts tell.
-/
import TagMigration.Proofs.Growth
import TagMigration.Proofs.Project.Settled

namespace TagMigration

namespace Run

/-! ### What a pass makes of a source -/

theorem transform_eq_ok {pass : Template → PassResult} {source identity code : String}
    {changes : Nat} (made : transform pass source identity = .ok (code, changes)) :
    ∃ template, Template.read source identity = .ok template ∧
      (pass template).template.print = .ok code ∧ (pass template).changes = changes := by
  rw [transform, Template.load] at made
  cases read : Template.read source identity with
  | error fault =>
    rw [read] at made
    cases made
  | ok template =>
    simp only [read, bind, Except.bind, Template.render] at made
    refine ⟨template, rfl, ?_⟩
    cases prints : (pass template).template.print with
    | error span =>
      rw [prints] at made
      cases made
    | ok text =>
      rw [prints] at made
      cases made
      exact ⟨rfl, rfl⟩

/-! ### A file that did not fail -/

/-- The entry of a file, and the files after it, if the pass has made a text of its source. -/
structure Handled (config : Config) (pass : Template → PassResult) (files after : Workspace)
    (path : Path) (report : FileReport) (source code : String) : Prop where
  found : files.read path = .ok source.toUTF8
  made : transform pass source (config.identityFor path) = .ok (code, report.changes)
  left : after.read path = .ok code.toUTF8
  status : report.status =
    if code = source ∧ config.writeUnchanged = false then .unchanged else .written
  digestBefore : report.digestBefore = some (Sha256.hex source.toUTF8)
  digestAfter : report.digestAfter = some (Sha256.hex code.toUTF8)

/-- A file fails, or its source is read, transformed and left as it was or written. -/
theorem exists_handled {config : Config} {pass : Template → PassResult} {files after : Workspace}
    {path : Path} {report : FileReport}
    (processed : processFile config pass files path = (report, after))
    (succeeds : ∀ error, report.status ≠ .failed error) :
    ∃ source code, Handled config pass files after path report source code := by
  rw [processFile_eq] at processed
  obtain ⟨rfl, rfl⟩ := Prod.mk.inj processed
  cases read : files.read path with
  | error fault =>
    rw [read] at succeeds
    exact absurd rfl (succeeds _)
  | ok content =>
    rw [read, verdict] at succeeds
    rw [verdict]
    cases isText : String.fromUTF8? content with
    | none =>
      rw [isText] at succeeds
      exact absurd rfl (succeeds _)
    | some source =>
      simp only [isText] at succeeds ⊢
      obtain rfl := toUTF8_of_fromUTF8? isText
      cases made : transform pass source (config.identityFor path) with
      | error error =>
        rw [made] at succeeds
        exact absurd rfl (succeeds _)
      | ok result =>
        obtain ⟨code, changes⟩ := result
        simp only
        refine ⟨source, code, ?_⟩
        by_cases same : code = source ∧ config.writeUnchanged = false
        · rw [if_pos same]
          exact ⟨read, made, same.1 ▸ read, (if_pos same).symm, rfl, rfl⟩
        · simp only [made, if_neg same] at succeeds
          rw [if_neg same]
          have left := Workspace.read_put_at (Workspace.get?_of_read read) code.toUTF8
          rw [read] at left
          cases refusal : refusal? files path with
          | none => exact ⟨read, made, left, (if_neg same).symm, rfl, rfl⟩
          | some way =>
            rw [refusal] at succeeds
            cases way with
            | closed fault => exact absurd rfl (succeeds _)
            | cut size fault => exact absurd rfl (succeeds _)

/-- A pass whose number of changes tells whether it changes the text of a template. -/
def CountsChanges (pass : Template → PassResult) : Prop :=
  ∀ source identity template, Template.read source identity = .ok template →
    ∃ text, (pass template).template.print = .ok text ∧
      ((pass template).changes = 0 ↔ text = source)

theorem countsChanges_instrument : CountsChanges Template.instrument := by
  intro source identity template read
  obtain ⟨text, prints, agree, -⟩ := Template.exists_print_instrument read
  exact ⟨text, prints, agree⟩

theorem countsChanges_strip : CountsChanges Template.strip := by
  intro source identity template read
  obtain ⟨text, prints, agree, -⟩ := Template.exists_print_strip read
  exact ⟨text, prints, agree⟩

section Handled

variable {config : Config} {pass : Template → PassResult} {files after : Workspace} {path : Path}
  {report : FileReport} {source code : String}

/-- An entry says that the content stayed if the text did. -/
theorem Handled.digest_eq (handled : Handled config pass files after path report source code)
    (unchanged : report.status = .unchanged) : report.digestBefore = report.digestAfter := by
  rw [handled.status] at unchanged
  split at unchanged
  · next stays => rw [handled.digestBefore, handled.digestAfter, stays.1]
  · cases unchanged

/-- An entry says that the file was written if changes are reported. -/
theorem Handled.written_iff (handled : Handled config pass files after path report source code)
    (keeps : config.writeUnchanged = false) (counts : CountsChanges pass) :
    report.status = .written ↔ 0 < report.changes := by
  obtain ⟨template, read, prints, isCount⟩ := transform_eq_ok handled.made
  obtain ⟨text, printsText, agree⟩ := counts _ _ _ read
  obtain rfl := Except.ok.inj (printsText.symm.trans prints)
  rw [handled.status, Nat.pos_iff_ne_zero, ← isCount, Ne, agree]
  by_cases same : text = source
  · rw [if_pos ⟨same, keeps⟩]
    exact iff_of_false nofun fun differs => differs same
  · rw [if_neg (not_and_of_not_left _ same)]
    exact iff_of_true rfl same

end Handled

end Run

/-! ### Changes, status and content -/

/-- Instrumenting and stripping change the text of a template exactly if they count a change, and then
the text is longer, or shorter, than the source: it holds the source, or the source holds it. In the
entry of a file that did not fail, the second digest is that of the content that the file has now, an
unchanged file has the same digest before, and unless files are written back in any case, one that
was instrumented or stripped was written exactly if changes are reported. -/
theorem changes_agree :
    (∀ (source identity : String) (template : Template),
      Template.read source identity = .ok template →
      (∃ text, template.instrument.template.print = .ok text ∧
        (template.instrument.changes = 0 ↔ text = source) ∧
        (0 < template.instrument.changes → byteSize source.toList < byteSize text.toList) ∧
        source.toList.Sublist text.toList) ∧
      ∃ text, template.strip.template.print = .ok text ∧
        (template.strip.changes = 0 ↔ text = source) ∧
        (0 < template.strip.changes → byteSize text.toList < byteSize source.toList) ∧
        text.toList.Sublist source.toList) ∧
    ∀ (config : Config) (pass : Template → PassResult) (files after : Workspace) (path : Path)
      (report : FileReport), Run.processFile config pass files path = (report, after) →
      (∀ error, report.status ≠ .failed error) →
      (∃ content, after.read path = .ok content ∧
        report.digestAfter = some (Sha256.hex content)) ∧
      (report.status = .unchanged → report.digestBefore = report.digestAfter) ∧
      (config.writeUnchanged = false → pass = Template.instrument ∨ pass = Template.strip →
        (report.status = .written ↔ 0 < report.changes)) := by
  refine ⟨fun source identity template read =>
    ⟨Template.exists_print_instrument read, Template.exists_print_strip read⟩, ?_⟩
  intro config pass files after path report processed succeeds
  obtain ⟨source, code, handled⟩ := Run.exists_handled processed succeeds
  refine ⟨⟨_, handled.left, handled.digestAfter⟩, handled.digest_eq, fun keeps isPass => ?_⟩
  rcases isPass with rfl | rfl
  · exact handled.written_iff keeps Run.countsChanges_instrument
  · exact handled.written_iff keeps Run.countsChanges_strip

/-- A conditional in the branch of a block whose name is not asked about yet. -/
def halfProbedSource : String :=
  "\x7b\x7b#x\x7d\x7d\x7b\x7b#if (-probe-is-component \"y\" \"b\")\x7d\x7d\x7b\x7by\x7d\x7d\x7b\x7belse\x7d\x7d\x7b\x7b~z\x7d\x7d\x7b\x7b/if\x7d\x7d\x7b\x7b/x\x7d\x7d"

/-- A template with this source. -/
def halfProbedFiles : Workspace where
  tree.entries := [(["tpl"], .directory), (["tpl", "a.hbs"], .file halfProbedSource.toUTF8)]
  here := []
  process := 7

/-- Either pass has something to do: the one puts a conditional around the block, the other takes out
the one inside. -/
theorem changes_agree_halfProbedSource : ∃ template instrumented stripped,
    Template.read halfProbedSource "tpl/a.hbs" = .ok template ∧
      template.instrument.template.print = .ok instrumented ∧
      template.strip.template.print = .ok stripped ∧
      byteSize stripped.toList < byteSize halfProbedSource.toList ∧
      byteSize halfProbedSource.toList < byteSize instrumented.toList ∧
      ∀ pass, pass = Template.instrument ∨ pass = Template.strip → ∃ report after content,
        Run.processFile .default pass halfProbedFiles ⟨"tpl/./a.hbs"⟩ = (report, after) ∧
          report.status = .written ∧ 0 < report.changes ∧
          after.read ⟨"tpl/./a.hbs"⟩ = .ok content ∧
          report.digestAfter = some (Sha256.hex content) := by
  have succeeds : ((Template.read halfProbedSource "tpl/a.hbs").toOption.any fun template =>
      decide (0 < template.instrument.changes ∧ 0 < template.strip.changes)) = true := by
    decide +kernel
  obtain ⟨template, read, adds, removes⟩ := Template.exists_of_read succeeds
  obtain ⟨templates, entries⟩ := changes_agree
  obtain ⟨⟨instrumented, added, -, longer, -⟩, stripped, removed, -, shorter, -⟩ :=
    templates _ _ template read
  refine ⟨template, instrumented, stripped, read, added, removed, shorter removes, longer adds, ?_⟩
  intro pass isPass
  have written : (Run.processFile .default pass halfProbedFiles ⟨"tpl/./a.hbs"⟩).1.status =
      .written := by
    rcases isPass with rfl | rfl
    · decide +kernel
    · decide +kernel
  obtain ⟨⟨content, left, digest⟩, -, counted⟩ := entries .default pass halfProbedFiles _ _ _
    (Prod.eta _).symm (by rw [written]; exact nofun)
  exact ⟨_, _, content, (Prod.eta _).symm, written, (counted rfl isPass).1 written, left, digest⟩

end TagMigration
