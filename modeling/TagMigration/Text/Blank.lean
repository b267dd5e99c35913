/-
Blank characters. The template language separates words, skips space inside tags
and ends names by one class of characters, the Unicode property `White_Space`,
which holds for twenty-five code points. This file is that table, and the two ways
the readers use it: dropping leading blanks and splitting a text into words.
-/

namespace TagMigration

/-! ### The class -/

/-- A blank is a character with the Unicode property `White_Space`. -/
def isBlank (char : Char) : Bool :=
  let code := char.toNat
  (0x09 ≤ code && code ≤ 0x0d) || code == 0x20 || code == 0x85 || code == 0xa0 ||
    code == 0x1680 || (0x2000 ≤ code && code ≤ 0x200a) || code == 0x2028 || code == 0x2029 ||
    code == 0x202f || code == 0x205f || code == 0x3000

/-! ### Words -/

/-- The words of a text, given the letters of the word that is being read. -/
def wordsFrom (word : List Char) : List Char → List (List Char)
  | [] => if word.isEmpty then [] else [word]
  | char :: rest =>
    if isBlank char then
      if word.isEmpty then wordsFrom [] rest else word :: wordsFrom [] rest
    else wordsFrom (word ++ [char]) rest

/-- The maximal runs of characters that are not blank, in order. -/
def words (text : List Char) : List (List Char) :=
  wordsFrom [] text

end TagMigration
