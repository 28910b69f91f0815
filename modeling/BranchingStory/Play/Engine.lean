import BranchingStory.Play.Ending
import BranchingStory.Play.Evaluation
import BranchingStory.Play.Interpolation
import BranchingStory.Play.Playthrough
import BranchingStory.Play.Timers
/-!
# The engine

An `Engine` plays one story. It has no clock: whatever depends on the time takes it as an argument,
in milliseconds.
-/

namespace BranchingStory

/-- What can be chosen about an engine. -/
structure Settings where
  historyLimit : Nat := 100
  exitDuration : UInt64 := 500
  maxAutoSteps : Nat := 10000
deriving DecidableEq, Repr, Inhabited

namespace Settings

/-- The settings with another limit of the backlog, which is at least one entry. -/
def withHistoryLimit (s : Settings) (limit : Nat) : Settings :=
  { s with historyLimit := max limit 1 }

/-- The settings with another duration for exits whose directive gives none. -/
def withExitDuration (s : Settings) (duration : UInt64) : Settings :=
  { s with exitDuration := duration }

/-- The settings with another limit of automatic steps, which is at least one step. -/
def withMaxAutoSteps (s : Settings) (steps : Nat) : Settings :=
  { s with maxAutoSteps := max steps 1 }

end Settings

/-- A story being played. Observers are counted, and each of them hears of everything. -/
structure Engine where
  story : Story
  settings : Settings := {}
  observers : Nat := 0
  run : Playthrough := {}
  timers : Timers := {}
  imageCounter : UInt64 := 0
deriving DecidableEq, Repr, Inhabited

/-- A choice that the current node offers, and whether it can be picked. -/
structure Offer where
  index : Nat
  choice : Choice
  enabled : Bool
deriving DecidableEq, Repr, Inhabited

/-- The text of an offer. A choice that cannot be picked may have a text for that. -/
def Offer.label (o : Offer) : String :=
  if o.enabled then o.choice.text else (given o.choice.disabledText).getD o.choice.text

namespace Engine

/-- The chapter being played. -/
def currentChapter? (e : Engine) : Option Chapter := e.story.chapter? e.run.stage e.run.chapter

/-- The node at which the story is. -/
def currentNode? (e : Engine) : Option Node := e.currentChapter?.bind (·.node? e.run.node)

/-- Whether a condition holds. -/
def holds (e : Engine) (c : Condition) : Bool := e.run.store.holds c

/-- A text with values in place of its tokens. -/
def interpolate (e : Engine) (text : String) : String :=
  e.run.store.interpolate (e.story.declarations e.currentChapter?) text

/-- Whether a choice can be picked. -/
def unlocked (e : Engine) (c : Choice) : Bool := c.condition.all e.holds

/-- The choices that the current node offers. -/
def offers (e : Engine) : List Offer :=
  match e.currentNode?.map Node.kind with
  | some (.choice choices) =>
    choices.zipIdx.map fun (choice, index) => { index, choice, enabled := e.unlocked choice }
  | _ => []

/-- How the story is to be shown. -/
def mode (e : Engine) : String := (e.story.presentation.bind (·.mode)).getD "visualNovel"

/-- The colours in which the story is to be shown. -/
def theme (e : Engine) : String := (e.story.presentation.bind (·.theme)).getD "dark"

/-- Where the story goes from a node at the end of the current chapter. -/
def endingAt (e : Engine) (n : Node) : Ending := e.story.ending e.run.stage e.run.chapter n

/-- Where the story goes, when it is at the end of a chapter. -/
def ending? (e : Engine) : Option Ending :=
  (e.currentNode?.filter (·.type = .chapterEnd)).map e.endingAt

end Engine

end BranchingStory
