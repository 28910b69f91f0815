import BranchingStory.Story.Picture
/-!
# Timers

What is to be done at a later time. Timers fire in the order of their due times, and those due at
the same time in the order in which they were scheduled. Every timer belongs to an epoch; when a new
epoch begins, the timers of the one before it are void.
-/

namespace BranchingStory

/-- What a timer does when it fires. -/
inductive Deferred where
  | removeImage (serial : UInt64)
  | showImage (node : String) (directive : ImageDirective)
  | moveOn (next : String)
deriving DecidableEq, Repr

namespace Deferred

/-- Whether the story waits for this timer. -/
def isTransition : Deferred → Bool
  | moveOn _ => true
  | _ => false

/-- Whether this timer is about to fill a slot. -/
def fills (slot : Slot) : Deferred → Bool
  | showImage _ d => d.picture.slot = slot
  | _ => false

end Deferred

/-- A timer. -/
structure Timer where
  due : Int64
  /-- Tells when the timer was scheduled. 64 bits are taken to be enough for all numbers. -/
  number : Nat
  /-- Tells whether the timer is void. 64 bits are taken to be enough for all epochs. -/
  epoch : Nat
  action : Deferred
deriving DecidableEq, Repr

/-- Whether a timer fires no later than another one. -/
def Timer.notAfter (a b : Timer) : Bool := a.due < b.due ∨ (a.due = b.due ∧ a.number ≤ b.number)

/-- The timers, the latest first, and what is needed to number them. -/
structure Timers where
  timers : List Timer := []
  /-- The number of the latest timer, or zero. Numbers are taken not to run out. -/
  lastNumber : Nat := 0
  /-- The current epoch. Epochs are taken not to run out. -/
  epoch : Nat := 0
deriving DecidableEq, Repr, Inhabited

namespace Timers

/-- The timers of the current epoch. -/
def live (t : Timers) : List Timer := t.timers.filter (·.epoch = t.epoch)

/-- One more timer. -/
def schedule (t : Timers) (due : Int64) (action : Deferred) : Timers :=
  let number := t.lastNumber + 1
  { t with timers := ⟨due, number, t.epoch, action⟩ :: t.timers, lastNumber := number }

/-- The first to fire among some timers. -/
def first? : List Timer → Option Timer
  | [] => none
  | a :: rest =>
    match first? rest with
    | none => some a
    | some b => if a.notAfter b then some a else some b

/-- The live timers that are due at a time. -/
def due (t : Timers) (now : Int64) : List Timer :=
  t.timers.filter fun timer => timer.epoch = t.epoch ∧ timer.due ≤ now

/-- What the first timer to fire of those due at a time does, and the timers without it. -/
def popDue (t : Timers) (now : Int64) : Option (Deferred × Timers) :=
  (first? (t.due now)).map fun timer =>
    (timer.action, { t with timers := t.timers.erase timer })

/-- The earliest due time of a live timer. -/
def nextDue? (t : Timers) : Option Int64 := (t.live.map (·.due)).min?

/-- Whether the story waits for a live timer. -/
def transitionPending (t : Timers) : Bool := t.live.any (·.action.isTransition)

/-- What the live timers do, in the order in which they fire. -/
def pending (t : Timers) : List Deferred := (t.live.mergeSort Timer.notAfter).map (·.action)

/-- The timers without the live ones that do something of a certain sort. -/
def cancel (t : Timers) (p : Deferred → Bool) : Timers :=
  { t with timers := t.timers.filter fun timer => timer.epoch ≠ t.epoch ∨ !p timer.action }

/-- A new epoch, without any timer. -/
def nextEpoch (t : Timers) : Timers := { t with timers := [], epoch := t.epoch + 1 }

end Timers

end BranchingStory
