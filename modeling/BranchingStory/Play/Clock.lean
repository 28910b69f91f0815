import BranchingStory.Play.Overflow
/-!
# Clocks

A clock that only moves when told to, in milliseconds.
-/

namespace BranchingStory

/-- The time on a clock after a duration, unless it is out of range. No duration is longer than the
largest time there is. -/
def clockAfter (now : Int64) (duration : UInt64) : Except Overflow Int64 :=
  sumOf now (Int64.ofNat (min duration.toNat Int64.maxValue.toInt.toNat))

end BranchingStory
