/-!
# Magnitudes of binary64 numbers

A nonnegative binary64 number is written in 63 bits, its *word*.  The words in
their order are the magnitudes in theirs: `0` is zero, `infinity` is infinity,
and every word in between is a whole number of units of `2 ^ (-1074)`, the
distance from zero to the next magnitude.

`units` reads a word, and `nearest` goes the other way: it rounds a quotient of
natural numbers to the nearest magnitude, a tie to the even word.  Both are
plain arithmetic on `Nat`, so nothing is lost between a number and its text.
-/

namespace Lox.Magnitude

/-- The word of infinity.  All smaller words are finite magnitudes. -/
def infinity : Nat := 0x7FF0000000000000

/-- One is this many units: `2 ^ 1074`. -/
def one : Nat := 1 <<< 1074

/-- The first bit of every significand but those of the smallest magnitudes is
set, and it is not written in a word: `2 ^ 52`. -/
def hiddenBit : Nat := 1 <<< 52

/-! ## From words to units -/

/-- The significant bits of a word.  Below twice the hidden bit a word counts
single units. -/
def significand (word : Nat) : Nat :=
  if word < 2 * hiddenBit then word else hiddenBit + word % hiddenBit

/-- The power of two by which the significand is scaled. -/
def scale (word : Nat) : Nat := word / hiddenBit - 1

/-- The magnitude of a word, in units. -/
def units (word : Nat) : Nat := significand word <<< scale word

/-! ## From units to words -/

/-- The last word of at most `n` units.  Its significand is the first 53 bits
of `n`. -/
def floorWord (n : Nat) : Nat :=
  let scale := n.log2 - 52
  scale * hiddenBit + n >>> scale

/-- The word nearest to `num / den` units.  Of two words equally near the even
one is taken, and what is past the last finite magnitude is infinite. -/
def nearest (num den : Nat) : Nat :=
  let low := floorWord (num / den)
  let word := match compare (2 * num) ((units low + units (low + 1)) * den) with
    | .lt => low
    | .eq => low + low % 2
    | .gt => low + 1
  min word infinity

end Lox.Magnitude
