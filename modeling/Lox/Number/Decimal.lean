import Lox.Number.Magnitude

/-!
# Decimals

A decimal is a natural number times a power of ten.  `Interval.shortest` finds
the decimal with the fewest digits among those that round to a given magnitude,
and `Decimal.text` writes it out without an exponent.

The search goes through the grids of the multiples of `10 ^ k`, the coarse ones
first.  If any point of a grid rounds to the magnitude then so does one of the
two points beside the magnitude, so only these are tried.  The finest grid,
`10 ^ (-1074)`, holds every magnitude, which is where the search ends at the
latest.
-/

namespace Lox

/-- The power of ten with this exponent. -/
def powerOfTen (exponent : Nat) : Nat := Nat.pow 10 exponent

/-- The number `coefficient * 10 ^ exponent`. -/
structure Decimal where
  coefficient : Nat
  exponent : Int
deriving DecidableEq

/-- The numbers that round to `value / den`: those between `lower / den` and
`upper / den`, with both ends if the interval is `closed`. -/
structure Interval where
  lower : Nat
  value : Nat
  upper : Nat
  den : Nat
  closed : Bool
deriving DecidableEq

namespace Interval

/-- The interval around the magnitude of a finite word: it ends halfway to the
neighbouring words, and a tie goes to the even word.  Common factors of two are
taken out, so that ordinary numbers stay small. -/
def ofWord (word : Nat) : Interval :=
  let shared := min (Magnitude.scale word - 1) 1075
  { lower := (Magnitude.units (word - 1) + Magnitude.units word) >>> shared
    value := (2 * Magnitude.units word) >>> shared
    upper := (Magnitude.units word + Magnitude.units (word + 1)) >>> shared
    den := 1 <<< (1075 - shared)
    closed := word % 2 == 0 }

/-- Whether a decimal is in the interval. -/
def contains (interval : Interval) (decimal : Decimal) : Bool :=
  let places := powerOfTen (-decimal.exponent).toNat
  let point := decimal.coefficient * powerOfTen decimal.exponent.toNat * interval.den
  let lower := interval.lower * places
  let upper := interval.upper * places
  if interval.closed then lower ≤ point && point ≤ upper else lower < point && point < upper

/-- The multiple of `10 ^ exponent` in the interval that is nearest to its value,
if there is one.  Of two that are equally near the larger is taken. -/
def onGrid? (interval : Interval) (exponent : Int) : Option Decimal :=
  let num := interval.value * powerOfTen (-exponent).toNat
  let den := interval.den * powerOfTen exponent.toNat
  let below : Decimal := ⟨num / den, exponent⟩
  let above : Decimal := ⟨num / den + 1, exponent⟩
  match interval.contains below, interval.contains above with
  | true, true => if 2 * num < (2 * (num / den) + 1) * den then some below else some above
  | true, false => some below
  | false, true => some above
  | false, false => none

/-- The value itself, on the grid of the multiples of `10 ^ (-1074)`. -/
def exact (interval : Interval) : Decimal :=
  ⟨interval.value * powerOfTen 1074 / interval.den, -1074⟩

/-- The first hit on the grids of `10 ^ (steps - 1074)` and finer. -/
def search (interval : Interval) : (steps : Nat) → Decimal
  | 0 => interval.exact
  | steps + 1 =>
      match interval.onGrid? ((steps + 1 : Nat) - 1074 : Int) with
      | some decimal => decimal
      | none => search interval steps

/-- A number of steps from which the search misses no grid with a hit: the grid
there is coarser than the value.  It overestimates `log 2 / log 10`. -/
def steps (interval : Interval) : Nat :=
  let bits : Int := interval.value.log2 + 1 - interval.den.log2
  (bits * 30103 / 100000 + 1 + 1074).toNat

/-- The decimal of the fewest digits that rounds to the value, and of these the
nearest. -/
def shortest (interval : Interval) : Decimal := interval.search interval.steps

end Interval

namespace Decimal

/-- The digits of a natural number. -/
def digits (n : Nat) : List Char := Nat.toDigits 10 n

/-- A decimal in positional notation: digits, and if the exponent is negative a
point before the last `-exponent` of them. -/
def text (decimal : Decimal) : List Char :=
  match decimal.exponent with
  | .ofNat zeros => digits (decimal.coefficient * powerOfTen zeros)
  | .negSucc n =>
      let places := n + 1
      let one := powerOfTen places
      digits (decimal.coefficient / one) ++
        '.' :: (digits (decimal.coefficient % one)).leftpad places '0'

end Decimal

end Lox
