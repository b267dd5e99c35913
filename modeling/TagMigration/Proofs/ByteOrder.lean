/-
The order of texts by their bytes. Characters are compared by their code points, and texts character
by character. The first byte of a character tells how many bytes follow and has the highest bits of
the code point; the other bytes have six more bits each, the higher ones first. So the encodings
of two characters differ where their code points do, in the same direction, and what follows them
does not matter.
-/
import Mathlib.Algebra.Group.Nat.Defs
import Mathlib.Data.List.Basic
import Mathlib.Tactic.SplitIfs

namespace TagMigration.Utf8

/-! ### Characters -/

/-- The bytes that continue the encoding of a code point: six bits each, the higher ones first. -/
def continuation (code : Nat) : Nat → List UInt8
  | 0 => []
  | count + 1 => UInt8.ofNat (code / 64 ^ count % 64 + 128) :: continuation code count

/-- The first byte of the encoding of a code point. -/
def leading (code : Nat) : Nat :=
  if code < 128 then code
  else if code < 2048 then code / 64 + 192
  else if code < 65536 then code / 4096 + 224
  else code / 262144 + 240

/-- The number of bytes after the first one. -/
def following (code : Nat) : Nat :=
  if code < 128 then 0
  else if code < 2048 then 1
  else if code < 65536 then 2
  else 3

theorem code_lt (char : Char) : char.val.toNat < 1114112 := by
  rcases char.valid with low | ⟨-, high⟩
  · exact Nat.lt_trans low (by decide)
  · exact high

theorem utf8EncodeChar_eq (char : Char) : String.utf8EncodeChar char =
    UInt8.ofNat (leading char.val.toNat) ::
      continuation char.val.toNat (following char.val.toNat) := by
  have bounded := code_lt char
  rw [String.utf8EncodeChar]
  generalize char.val.toNat = code at bounded ⊢
  simp only [leading, following, ← Nat.lt_succ_iff]
  split_ifs
  · rfl
  · rw [Nat.mod_eq_of_lt (show code / 64 < 32 by omega)]
    simp only [continuation, Nat.pow_zero, Nat.div_one]
  · rw [Nat.mod_eq_of_lt (show code / 4096 < 16 by omega)]
    simp only [continuation, Nat.reducePow, Nat.div_one]
  · rw [Nat.mod_eq_of_lt (show code / 262144 < 8 by omega)]
    simp only [continuation, Nat.reducePow, Nat.div_one]

theorem leading_lt {code : Nat} (bounded : code < 1114112) : leading code < 256 := by
  rw [leading]
  split_ifs <;> omega

/-- Of two code points the lower one has the lower first byte, unless they differ only in the bits
of the bytes after it. -/
theorem leading_lt_or {first second : Nat} (less : first < second) :
    leading first < leading second ∨ leading first = leading second ∧
      following first = following second ∧
        first / 64 ^ following second = second / 64 ^ following second := by
  simp only [leading, following]
  split_ifs <;> simp only [Nat.reducePow, Nat.div_one, true_and] <;> omega

theorem cons_lt_cons {first second : Nat} (less : first < second) (byte : second < 256)
    (rest more : List UInt8) : UInt8.ofNat first :: rest < UInt8.ofNat second :: more := by
  refine List.cons_lt_cons_iff.mpr (.inl (UInt8.lt_iff_toNat_lt.mpr ?_))
  rwa [UInt8.toNat_ofNat_of_lt' (Nat.lt_trans less byte), UInt8.toNat_ofNat_of_lt' byte]

theorem continuation_lt {count first second : Nat} (less : first < second)
    (same : first / 64 ^ count = second / 64 ^ count) (rest more : List UInt8) :
    continuation first count ++ rest < continuation second count ++ more := by
  -- The bytes differ first where the code points do: the induction takes off the highest six bits
  -- as long as these are the same.
  induction count with
  | zero =>
    rw [Nat.pow_zero, Nat.div_one, Nat.div_one] at same
    exact absurd same (Nat.ne_of_lt less)
  | succ count inductionHypothesis =>
    rw [continuation, continuation, List.cons_append, List.cons_append]
    rw [Nat.pow_succ, ← Nat.div_div_eq_div_mul, ← Nat.div_div_eq_div_mul] at same
    by_cases further : first / 64 ^ count = second / 64 ^ count
    · rw [further]
      exact List.cons_lt_cons_iff.mpr (.inr ⟨rfl, inductionHypothesis further⟩)
    · have atMost : first / 64 ^ count ≤ second / 64 ^ count :=
        Nat.div_le_div_right (Nat.le_of_lt less)
      exact cons_lt_cons (by omega) (by omega) _ _

/-- The encoding of a lower character is before that of a higher one, whatever follows them. -/
theorem utf8EncodeChar_lt {first second : Char} (less : first < second)
    (rest more : List UInt8) :
    String.utf8EncodeChar first ++ rest < String.utf8EncodeChar second ++ more := by
  rw [utf8EncodeChar_eq, utf8EncodeChar_eq, List.cons_append, List.cons_append]
  have codes : first.val.toNat < second.val.toNat := less
  rcases leading_lt_or codes with lower | ⟨sameLead, sameCount, same⟩
  · exact cons_lt_cons lower (leading_lt (code_lt second)) _ _
  · rw [sameLead, sameCount]
    exact List.cons_lt_cons_iff.mpr (.inr ⟨rfl, continuation_lt less same rest more⟩)

/-! ### Texts -/

/-- The bytes of a text. -/
def bytes (text : String) : List UInt8 :=
  text.toUTF8.data.toList

theorem bytes_eq (text : String) : bytes text = text.toList.flatMap String.utf8EncodeChar := by
  have encoded : (String.ofList text.toList).toByteArray = text.toList.utf8Encode :=
    String.toByteArray_ofList
  rw [String.ofList_toList] at encoded
  rw [bytes, String.toUTF8, encoded, List.utf8Encode, List.toList_data_toByteArray]

/-- Texts are ordered by their bytes as by their characters. -/
theorem bytes_lt {first second : String} (less : first < second) : bytes first < bytes second := by
  rw [bytes_eq, bytes_eq]
  have chars : first.toList < second.toList := less
  clear less
  generalize first.toList = left at chars ⊢
  generalize second.toList = right at chars ⊢
  induction chars with
  | nil =>
    rw [List.flatMap_nil, List.flatMap_cons, utf8EncodeChar_eq]
    exact List.nil_lt_cons _ _
  | cons _ inductionHypothesis =>
    rw [List.flatMap_cons, List.flatMap_cons]
    exact List.append_left_lt inductionHypothesis
  | rel lower =>
    rw [List.flatMap_cons, List.flatMap_cons]
    exact utf8EncodeChar_lt lower _ _

end TagMigration.Utf8
