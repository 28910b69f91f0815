/-!
# Doubles as exact fractions

A finite double is a sign and a magnitude `mantissa * 2 ^ exponent` with natural `mantissa`.
`Binary64.ofFloat?` takes a double apart, and `Binary64.nearestBits` goes the other way: from a
fraction of naturals to the bits of the nearest double, in exact arithmetic. Ordered by magnitude,
the bit patterns of the nonnegative doubles are consecutive naturals, so rounding up past a power
of two is plain addition on the bits.
-/

namespace BranchingStory

/-- A finite double taken apart: its magnitude is `mantissa * 2 ^ exponent`. -/
structure Binary64 where
  negative : Bool
  mantissa : Nat
  exponent : Int
deriving DecidableEq, Repr

namespace Binary64

/-- The bits of positive infinity, the first bits that stand for no finite magnitude. -/
def infinityBits : Nat := 2047 * Nat.pow 2 52

/-- The parts of a finite double; `none` for a NaN and the infinities. -/
def ofFloat? (x : Float) : Option Binary64 :=
  let bits := x.toBits.toNat
  let negative := bits / Nat.pow 2 63 == 1
  let field : Nat := bits / Nat.pow 2 52 % Nat.pow 2 11
  let fraction : Nat := bits % Nat.pow 2 52
  if field = 2047 then none
  else if field = 0 then some ⟨negative, fraction, -1074⟩
  else some ⟨negative, Nat.pow 2 52 + fraction, (field : Int) - 1075⟩

/-- The double with the given sign and magnitude bits. -/
def toFloat (negative : Bool) (magnitude : Nat) : Float :=
  Float.ofBits (UInt64.ofNat (magnitude + if negative then Nat.pow 2 63 else 0))

/-- `n / d` rounded to the nearest natural; a tie goes to the even one. -/
def roundQuotient (n d : Nat) : Nat :=
  let q := n / d
  let r := n % d
  if 2 * r < d then q else if d < 2 * r then q + 1 else q + q % 2

/-- The exponent of two in the last place of the doubles around `n / d`, for positive `n`: 52 below
that of the largest power of two not above `n / d`, but never below the subnormal one. -/
def lastPlace (n d : Nat) : Int :=
  let guess : Int := (n.log2 : Int) - d.log2
  let reached := d * Nat.pow 2 guess.toNat ≤ n * Nat.pow 2 (-guess).toNat
  max ((if reached then guess else guess - 1) - 52) (-1074)

/-- The magnitude bits of the double nearest to `n / d`, ties to even. The result is at least
`infinityBits` exactly when the fraction rounds past the largest finite double. -/
def nearestBits (n d : Nat) : Nat :=
  if n = 0 then 0
  else
    let place := lastPlace n d
    let steps := roundQuotient (n * Nat.pow 2 (-place).toNat) (d * Nat.pow 2 place.toNat)
    (place + 1074).toNat * Nat.pow 2 52 + steps

/-- The integer a double is, when it is one. -/
def toInt? (b : Binary64) : Option Int :=
  let sign : Int := if b.negative then -1 else 1
  if 0 ≤ b.exponent then some (sign * (b.mantissa * Nat.pow 2 b.exponent.toNat : Nat))
  else
    let unit := Nat.pow 2 (-b.exponent).toNat
    if b.mantissa % unit = 0 then some (sign * (b.mantissa / unit : Nat)) else none

end Binary64

end BranchingStory
