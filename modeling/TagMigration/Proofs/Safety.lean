/-
Reading is safe and always gets further. The scanner of templates checks every slice that it takes,
every round of a loop that goes on, and the number of rounds. Whatever characters a source has, the
scanner ends with the template that is loaded from the source, or with the fault that loading it
fails with. So no slice is out of range or cuts a character, no round stands still, and the rounds
never run out. What a fault blames is a place between characters of the source, and where a
construct is refused, its two braces stand.
-/
import TagMigration.Project.Run
import TagMigration.Proofs.Scanning.Content

namespace TagMigration

/-- The error tells the line and column of a character boundary of the source. If a construct is
refused, two braces stand there. -/
def Error.Locates (source : List Char) (error : Error) : Prop :=
  ∃ front back, source = front ++ back ∧
    error.place? = some (Location.ofOffset source (byteSize front)) ∧
    (error.code = "UNRECOGNIZED_NODE" → ['{', '{'] <+: back)

theorem Scan.Blames.locates {source identity : String} {fault : Fault}
    (blames : Scan.Blames source.toList fault) :
    (Error.ofFault source identity fault).Locates source.toList := by
  obtain ⟨front, back, isSource, size, braces⟩ := blames
  refine ⟨front, back, isSource, by rw [size]; rfl, fun code => braces ?_⟩
  simp only [Error.ofFault, Error.code] at code
  split at code
  · next refuses => exact refuses
  · exact absurd code (by decide)

/-- A source of fewer characters than there are rounds is scanned as it is read. -/
theorem Scan.template_cases (source identity : String) {rounds : Nat}
    (few : source.toList.length < rounds) :
    (∃ template, Scan.template rounds source identity = .ok template ∧
      Template.read source identity = .ok template) ∨
    ∃ fault, Scan.template rounds source identity = .error (.fault fault) ∧
      Template.read source identity = .error fault ∧ Scan.Blames source.toList fault := by
  have agrees : Scan.Agrees source.toList 0 (Scan.content source.toList rounds rounds 0)
      (Reader.contentWithin source.toList.length (.ofText source.toList)) :=
    Scan.scans_content few rounds _ _ (Scan.at_ofText source.toList) few (Nat.le_refl _)
  have read : Reader.content (.ofText source.toList) =
      Reader.contentWithin source.toList.length (.ofText source.toList) := rfl
  rw [Scan.template, Template.read, read]
  generalize Reader.contentWithin source.toList.length (.ofText source.toList) = found at agrees ⊢
  generalize Scan.content source.toList rounds rounds 0 = scan at agrees ⊢
  cases agrees with
  | fault blames => exact .inr ⟨_, rfl, rfl, blames⟩
  | @ok content after there onward =>
    obtain ⟨body, stop⟩ := content
    have blames {cause : Cause} (plain : Error.isRefusal cause = false) :
        Scan.Blames source.toList ⟨after.offset, cause⟩ :=
      Scan.blames_of_isBoundary there.isBoundary plain
    cases stop with
    | endOfInput => exact .inl ⟨_, rfl, rfl⟩
    | closingTag => exact .inr ⟨_, rfl, rfl, blames rfl⟩
    | elseTag => exact .inr ⟨_, rfl, rfl, blames rfl⟩
    | closeTag => exact .inr ⟨_, rfl, rfl, blames rfl⟩

/-- Whatever a source is, its scan ends: with the template that is loaded from it, or with the
fault that is reported, and the report tells a place in the source. It never ends for a bad slice,
for a round that stands still, or for want of rounds. -/
theorem scan_ends (source identity : String) (rounds : Nat)
    (few : source.toList.length < rounds) :
    (∃ template, Scan.template rounds source identity = .ok template ∧
      Template.load source identity = .ok template) ∨
    ∃ fault, Scan.template rounds source identity = .error (.fault fault) ∧
      Template.load source identity = .error (.ofFault source identity fault) ∧
      (Error.ofFault source identity fault).Locates source.toList := by
  rcases Scan.template_cases source identity few with ⟨template, scanned, read⟩ | found
  · exact .inl ⟨template, scanned, by rw [Template.load, read]⟩
  · obtain ⟨fault, scanned, read, blames⟩ := found
    exact .inr ⟨fault, scanned, by rw [Template.load, read], blames.locates⟩

/-- A partial behind a character of two bytes: the offset counts bytes. -/
def partialSource : String := "é \x7b\x7b> x\x7d\x7d"

theorem scan_ends_partialSource : partialSource.toList.length < 10 ∧
    Template.load partialSource "a.hbs" =
      .error (.ofFault partialSource "a.hbs" ⟨3, .unrecognized .partialTag⟩) ∧
    (Error.ofFault partialSource "a.hbs" ⟨3, .unrecognized .partialTag⟩).Locates
      partialSource.toList := by
  have fails : (match Scan.template 10 partialSource "a.hbs" with
      | .ok _ => false
      | .error halt => decide (halt = .fault ⟨3, .unrecognized .partialTag⟩)) = true := by
    decide +kernel
  have few : partialSource.toList.length < 10 := by decide
  rcases scan_ends partialSource "a.hbs" 10 few with
    ⟨template, scanned, -⟩ | ⟨fault, scanned, loaded, locates⟩
  · rw [scanned] at fails
    cases fails
  · rw [scanned] at fails
    cases of_decide_eq_true fails
    exact ⟨few, loaded, locates⟩

end TagMigration
