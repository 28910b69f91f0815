import BranchingStory.Story.Value
/-!
# Conditions

A `Condition` decides whether a choice can be picked and which branch is taken. Most kinds stem
from documents of an older format; `Play/Evaluation` says when each of them holds.
-/

namespace BranchingStory

/-- How two values are compared. -/
inductive Comparison where
  | equal
  | different
  | greater
  | atLeast
  | less
  | atMost
deriving DecidableEq, Repr, Inhabited

namespace Comparison

/-- All comparisons. -/
def all : List Comparison := [equal, different, greater, atLeast, less, atMost]

/-- The sign for a comparison. -/
def symbol : Comparison → String
  | equal => "=="
  | different => "!="
  | greater => ">"
  | atLeast => ">="
  | less => "<"
  | atMost => "<="

end Comparison

/-- What a number is held against: an exact value, which decides alone when there is one, or
bounds. -/
structure Bounds where
  min : Option Float := none
  max : Option Float := none
  value : Option Value := none
deriving DecidableEq, Repr, Inhabited

/-- A condition on the state of a story. -/
inductive Condition where
  | compare (variableId : Option String) (comparison : Option Comparison) (value : Option Value)
  | gold (bounds : Bounds)
  | hp (bounds : Bounds)
  | flag (key : Option String) (value : Option Value)
  | choiceMade (choice : Option String)
  | affection (character : Option String) (bounds : Bounds)
  | reputation (faction : Option String) (bounds : Bounds)
  | relic (value : Option Value)
  | character (character : Option String)
  | unknown
deriving DecidableEq, Repr, Inhabited

/-- The word for the kind of a condition. -/
def Condition.word : Condition → String
  | compare .. => "variable"
  | gold .. => "gold"
  | hp .. => "hp"
  | flag .. => "flag"
  | choiceMade .. => "choice_made"
  | affection .. => "affection"
  | reputation .. => "reputation"
  | relic .. => "has_relic"
  | character .. => "character"
  | unknown => "unknown"

end BranchingStory
