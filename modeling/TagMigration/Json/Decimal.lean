/-
The range of decimal numbers. A number that is kept is held as a double, and one that is
too large for a double is refused. What is compared with the range is not the number
itself but the product of two doubles: the leading digits that fit into a word of 64
bits, and the power of ten that they are to be multiplied by, both rounded. Close to the
largest double this refuses some numbers that a single rounding would have kept.
-/

namespace TagMigration.Json

/-! ### Digits -/

/-- The value of a decimal digit. -/
def digitValue (digit : Char) : Nat :=
  digit.toNat - '0'.toNat

/-- The value of decimal digits. -/
def digitsValue (digits : List Char) : Nat :=
  digits.foldl (fun value digit => 10 * value + digitValue digit) 0

/-- The number of values of a word of 64 bits. -/
def wordBound : Nat :=
  Nat.pow 2 64

/-- A word with as many digits appended as it has room for, and the digits from the first one on
that does not fit. -/
def appendDigits (word : Nat) : List Char → Nat × List Char
  | [] => (word, [])
  | digit :: rest =>
    let longer := 10 * word + digitValue digit
    if longer < wordBound then appendDigits longer rest else (word, digit :: rest)

/-! ### Scaled words -/

/-- The number `significand · 10 ^ exponent`. -/
structure Scaled where
  significand : Nat
  exponent : Int
deriving DecidableEq, Repr

/-- The leading digits of a number and their power of ten. A digit before the point that does not
fit still counts for the power; one after the point is dropped. -/
def Scaled.ofDigits (whole fraction : List Char) (exponent : Int) : Scaled :=
  let (word, beyond) := appendDigits 0 whole
  let (word, dropped) := appendDigits word fraction
  ⟨word, exponent + beyond.length - (fraction.length - dropped.length : Nat)⟩

/-! ### Doubles -/

/-- The number of 53 significant bits that is nearest to a natural number; of two that are equally
near, the one whose last bit is zero. -/
def nearestDouble (number : Nat) : Nat :=
  let unit := Nat.pow 2 (number.log2 - 52)
  let count := number / unit
  let twice := 2 * (number % unit)
  if twice < unit ∨ (twice = unit ∧ count % 2 = 0) then count * unit else (count + 1) * unit

/-- The least number that is rounded to more than the largest double: halfway from that double to
the next power of two. -/
def doubleBound : Nat :=
  Nat.pow 2 1024 - Nat.pow 2 970

/-- The largest power of ten that a double can hold. -/
def largestPower : Nat := 308

/-- Whether a double can hold the product of a word and its power of ten, each of the two rounded
to a double before. Division never leads out of the range. -/
def Scaled.inRange (number : Scaled) : Bool :=
  if number.significand = 0 ∨ number.exponent < 0 then true
  else if (largestPower : Int) < number.exponent then false
  else
    nearestDouble number.significand * nearestDouble (Nat.pow 10 number.exponent.toNat)
      < doubleBound

end TagMigration.Json
