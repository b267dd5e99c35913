/-
Looking ahead for a token. A comment, an escaped curly and a list of block params
each end at the first place where a fixed token stands, so reading them is asking
what stands before that place.
-/

namespace TagMigration

/-- What stands before the first occurrence of `token`, or nothing if it does not occur. -/
def before? (token : List Char) : List Char → Option (List Char)
  | [] => if token.isEmpty then some [] else none
  | char :: rest =>
    if token.isPrefixOf (char :: rest) then some []
    else (before? token rest).map (char :: ·)

/-- A text is what stands before the token, the token, and the rest. -/
theorem before?_eq_some {token text head : List Char} (found : before? token text = some head) :
    ∃ tail, text = head ++ token ++ tail := by
  induction text generalizing head with
  | nil =>
    cases token with
    | nil => exact ⟨[], by simp_all [before?]⟩
    | cons char rest => simp [before?] at found
  | cons char rest inductionHypothesis =>
    rw [before?] at found
    split at found
    · next starts =>
      obtain ⟨tail, equal⟩ := List.isPrefixOf_iff_prefix.mp starts
      exact ⟨tail, by simp_all⟩
    · obtain ⟨inner, foundInner, rfl⟩ := Option.map_eq_some_iff.mp found
      obtain ⟨tail, equal⟩ := inductionHypothesis foundInner
      exact ⟨tail, by rw [equal]; simp⟩

end TagMigration
