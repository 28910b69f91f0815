/-!
# Overflow

Sums and differences of numbers of 64 bits that are out of range. They are nothing to go on with:
the program stops where it would need one.
-/

namespace BranchingStory

/-- A number that is out of range, by the operation it would have come of. -/
inductive Overflow where
  | addition
  | subtraction
deriving DecidableEq, Repr, Inhabited

/-- An overflow in words. -/
def Overflow.message : Overflow → String
  | addition => "attempt to add with overflow"
  | subtraction => "attempt to subtract with overflow"

/-- The sum of two times, unless it is out of range. -/
def sumOf (a b : Int64) : Except Overflow Int64 :=
  if a.toBitVec.saddOverflow b.toBitVec then .error .addition else .ok (a + b)

/-- The difference of two times, unless it is out of range. -/
def differenceOf (a b : Int64) : Except Overflow Int64 :=
  if a.toBitVec.ssubOverflow b.toBitVec then .error .subtraction else .ok (a - b)

/-- The serial number after another one, unless that is the largest one. -/
def nextSerial (serial : UInt64) : Except Overflow UInt64 :=
  if serial.toBitVec.uaddOverflow 1 then .error .addition else .ok (serial + 1)

end BranchingStory
