import BranchingStory.Decimal.Shortest
/-!
# Numerals of documents

The numerals of documents are not rounded to the nearest double. Their digits are, as far as 64 bits
hold them, and the double that comes of that is multiplied with a power of ten, or divided by one,
and rounded once more. So a double that is written with the fewest digits may read back as a
neighbour of itself.
-/

namespace BranchingStory.Decimal

/-- The double nearest to a power of ten; an infinity beyond `10 ^ 308`. -/
def powerOfTen (n : Nat) : Float := toFloat false ⟨1, n⟩

/-- A double times `10 ^ exponent`. What is to be divided by more than `10 ^ 308` is divided by that
first, and by the rest after it. -/
def shift (x : Float) (exponent : Int) : Float :=
  if 0 ≤ exponent then x * powerOfTen exponent.toNat
  else if -308 ≤ exponent then x / powerOfTen (-exponent).toNat
  else x / powerOfTen 308 / powerOfTen (-308 - exponent).toNat

/-- The double that a numeral stands for; `none` when it is too large for one. -/
def scaled? (negative : Bool) (d : Decimal) : Option Float :=
  let x := if d.digits = 0 then 0.0 else shift (wholeToFloat d.digits) d.exponent
  if x.isInf then none else some (if negative then -x else x)

end BranchingStory.Decimal
