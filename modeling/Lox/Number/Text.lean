import Lox.Number.Decimal

/-!
# The text of numbers

`Number.text` writes a number, `Number.ofDigits` reads a literal.  A number is
written as the shortest decimal that reads back as that number, without an
exponent and without a point that has no digits after it.
-/

namespace Lox.Number

/-- The number of a literal, given the digits before and after its point,
rounded to the nearest.  A literal past the last finite number is infinite. -/
def ofDigits (whole fraction : List Char) : Float :=
  let coefficient := Nat.ofDigitChars 10 (whole ++ fraction) 0
  Float.ofBits (Magnitude.nearest (coefficient * Magnitude.one) (powerOfTen fraction.length)).toUInt64

/-- The magnitude of a number, as a word: all of its bits but the sign. -/
def word (x : Float) : Nat := (x.toBits &&& 0x7FFFFFFFFFFFFFFF).toNat

/-- Whether the sign bit is set, as it is in `-0` too. -/
def isNegative (x : Float) : Bool := x.toBits >= 0x8000000000000000

/-- The text of a magnitude. -/
def magnitudeText (word : Nat) : List Char :=
  if word = 0 then ['0']
  else if word = Magnitude.infinity then "inf".toList
  else (Interval.ofWord word).shortest.text

/-- The text of a number.  That of a number with a sign starts with `-`. -/
def text (x : Float) : String :=
  if x.isNaN then "NaN"
  else if isNegative x then String.ofList ('-' :: magnitudeText (word x))
  else String.ofList (magnitudeText (word x))

end Lox.Number
