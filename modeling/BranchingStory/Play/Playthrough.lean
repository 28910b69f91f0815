import BranchingStory.Play.Backlog
import BranchingStory.Play.Overflow
import BranchingStory.Play.Scene
import BranchingStory.Play.Store
/-!
# Playthroughs

All that is kept of a story while it is played, and all that a save holds.
-/

namespace BranchingStory

/-- Whether a story is being played. -/
inductive Status where
  | idle
  | playing
  | ended
deriving DecidableEq, Repr, Inhabited

namespace Status

/-- All statuses. -/
def all : List Status := [idle, playing, ended]

/-- The word for a status. -/
def word : Status → String
  | idle => "idle"
  | playing => "playing"
  | ended => "ended"

end Status

/-- One playthrough of a story. Times are in milliseconds. `playTime` is what was played before
`startedAt`. -/
structure Playthrough where
  node : String := ""
  stage : String := ""
  chapter : String := ""
  store : Store := {}
  backlog : Backlog := {}
  scene : Scene := {}
  startedAt : Int64 := 0
  playTime : Int64 := 0
  lastIndex : Option UInt64 := none
  lastText : Option String := none
  status : Status := .idle
deriving DecidableEq, Repr, Inhabited

/-- The time played altogether, unless that or the time since the start is out of range. A clock
that went backwards adds nothing. -/
def Playthrough.totalPlayTime (p : Playthrough) (now : Int64) : Except Overflow Int64 := do
  let since ← differenceOf now p.startedAt
  sumOf p.playTime (max since 0)

end BranchingStory
