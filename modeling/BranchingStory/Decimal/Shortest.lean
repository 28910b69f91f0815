import BranchingStory.Decimal.Binary64
/-!
# Decimals and the doubles they stand for

A `Decimal` is `digits * 10 ^ exponent`. `Decimal.toFloat` is the nearest double, and
`Decimal.shortest` the decimal of fewest digits that rounds to a given double, the nearest one
of those. Both work in exact arithmetic on naturals.
-/

namespace BranchingStory

/-- The nonnegative number `digits * 10 ^ exponent`. -/
structure Decimal where
  digits : Nat
  exponent : Int
deriving DecidableEq, Repr

/-- Where to go from a point halfway between two decimals of the same length. -/
inductive Tie where
  | toEven
  | up
deriving DecidableEq, Repr

namespace Decimal

/-- The magnitude bits of the nearest double. The two early answers only keep powers of ten small:
`10 ^ 311` is past the largest double, and what is below `10 ^ -330` rounds to zero. -/
def magnitudeBits (d : Decimal) : Nat :=
  if d.digits = 0 then 0
  else if 310 < d.exponent then Binary64.infinityBits
  else if d.exponent < -(330 + d.digits.log2 : Int) then 0
  else
    Binary64.nearestBits (d.digits * Nat.pow 10 d.exponent.toNat) (Nat.pow 10 (-d.exponent).toNat)

/-- The nearest double with the given sign, an infinity when the magnitude is too large. -/
def toFloat (negative : Bool) (d : Decimal) : Float :=
  Binary64.toFloat negative (min d.magnitudeBits Binary64.infinityBits)

/-- The double nearest to a whole number. -/
def wholeToFloat (n : Int) : Float := toFloat (n < 0) ⟨n.natAbs, 0⟩

/-! ## Fewest digits -/

/-- The number of decimal places to the left of the point that a fraction `n / d` fills: the least
`k` with `n / d < 10 ^ k`. The logarithm of two is slightly overestimated, so the search starts at
most one place too high. -/
def places (n d : Nat) : Int :=
  let bits : Int := (n.log2 : Int) - d.log2
  let guess : Int := bits * 30103 / 100000 - 1
  let below (k : Int) : Bool := n * Nat.pow 10 (-k).toNat < d * Nat.pow 10 k.toNat
  if below guess then guess else if below (guess + 1) then guess + 1
  else if below (guess + 2) then guess + 2 else guess + 3

/-- The reals that round to a double: all between `low / den` and `high / den`, where the double is
`value / den`. The ends belong to it when `closed`. -/
structure Interval where
  low : Nat
  value : Nat
  high : Nat
  den : Nat
  closed : Bool
deriving Repr

/-- The interval of a positive double. Halfway to the neighbours is two quarters of the last place
away, but one quarter below a power of two, where the doubles become twice as dense. -/
def interval (mantissa : Nat) (exponent : Int) : Interval :=
  let quarter := Nat.pow 2 (exponent - 2).toNat
  let gap := if mantissa = Nat.pow 2 52 ∧ exponent ≠ -1074 then 1 else 2
  { low := (4 * mantissa - gap) * quarter
    value := 4 * mantissa * quarter
    high := (4 * mantissa + 2) * quarter
    den := Nat.pow 2 (2 - exponent).toNat
    closed := mantissa % 2 = 0 }

/-- The multiple of `10 ^ place` in the interval that is nearest to the double, if there is one. It
is one of the two multiples next to the double. -/
def Interval.onGrid? (i : Interval) (tie : Tie) (place : Int) : Option Nat :=
  let scale := Nat.pow 10 (-place).toNat
  let unit := i.den * Nat.pow 10 place.toNat
  let c := i.value * scale / unit
  let r := i.value * scale % unit
  let down := i.low * scale < c * unit ∨ (i.closed ∧ i.low * scale = c * unit)
  let up := (c + 1) * unit < i.high * scale ∨ (i.closed ∧ (c + 1) * unit = i.high * scale)
  let nearerUp := unit < 2 * r ∨ (2 * r = unit ∧ (tie = .up ∨ c % 2 = 1))
  if down ∧ up then some (if nearerUp then c + 1 else c)
  else if down then some c
  else if up then some (c + 1)
  else none

/-- The value of a positive double with all its digits. -/
def exact (mantissa : Nat) (exponent : Int) : Decimal :=
  if 0 ≤ exponent then ⟨mantissa * Nat.pow 2 exponent.toNat, 0⟩
  else ⟨mantissa * Nat.pow 5 (-exponent).toNat, exponent⟩

/-- The decimal of fewest digits that rounds to the positive double `mantissa * 2 ^ exponent`;
of those, the nearest to it. Grids of 1, 2, … 17 digits are tried in turn. -/
def shortest (tie : Tie) (mantissa : Nat) (exponent : Int) : Decimal :=
  let i := interval mantissa exponent
  let k := places i.value i.den
  let found := (List.range 17).findSome? fun (n : Nat) =>
    (i.onGrid? tie (k - n - 1)).map fun digits =>
      if digits = Nat.pow 10 (n + 1) then (⟨1, k⟩ : Decimal) else ⟨digits, k - n - 1⟩
  found.getD (exact mantissa exponent)

end Decimal

end BranchingStory
