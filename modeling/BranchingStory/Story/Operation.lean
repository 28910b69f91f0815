import BranchingStory.KeyMap
import BranchingStory.Story.Value
/-!
# Operations and effects

What a story does to its variables and flags: the operations of its variable nodes, and the effects
that a choice or the entering of a node brings with it.
-/

namespace BranchingStory

/-- What an operation does to its target. -/
inductive Action where
  | set
  | add
  | subtract
  | multiply
  | push
  | pop
  | removeAt
  | setAt
  | clear
deriving DecidableEq, Repr, Inhabited

namespace Action

/-- All actions. -/
def all : List Action := [set, add, subtract, multiply, push, pop, removeAt, setAt, clear]

/-- The word for an action. -/
def word : Action → String
  | set => "set"
  | add => "add"
  | subtract => "subtract"
  | multiply => "multiply"
  | push => "push"
  | pop => "pop"
  | removeAt => "removeAt"
  | setAt => "setAt"
  | clear => "clear"

end Action

/-- What an operation works with: a value of its own, or the value a variable has at that moment.
-/
structure Operand where
  literal : Option Value := none
  fromVariable : Bool := false
  source : Option String := none
deriving DecidableEq, Repr, Inhabited

/-- One operation. Those whose target no longer exists are `retired`. -/
inductive Operation where
  | onVariable (id : Option String) (action : Action) (operand : Operand) (index : Option Int64)
  | onFlag (key : Option String) (action : Action) (operand : Operand)
  | retired
deriving DecidableEq, Repr, Inhabited

namespace Operation

/-- An operation on a variable with a value of its own. -/
def withValue (id : String) (action : Action) (value : Value) : Operation :=
  .onVariable (some id) action { literal := some value } none

/-- An operation on a variable with the value of another one. -/
def withVariable (id : String) (action : Action) (source : String) : Operation :=
  .onVariable (some id) action { fromVariable := true, source := some source } none

/-- An operation on one item of a list. -/
def atIndex (id : String) (action : Action) (index : Int64) (value : Option Value) : Operation :=
  .onVariable (some id) action { literal := value } (some index)

end Operation

/-- A change of what a character or a faction thinks of the player. -/
structure StatChange where
  subject : String
  delta : Float
deriving DecidableEq, Repr, Inhabited

/-- What a choice, or entering a node, brings with it. Only the flags have an effect of their own;
the rest is kept for programs that look at it. -/
structure Effects where
  setFlags : KeyMap Value := .empty
  gold : Option Float := none
  hp : Option Float := none
  affection : List StatChange := []
  reputation : List StatChange := []
  card : Option String := none
  relic : Option String := none
deriving DecidableEq, Repr, Inhabited

/-- Whether effects hold changes of numbers, which are kept without being applied. -/
def Effects.changesStats (e : Effects) : Bool :=
  e.gold.isSome || e.hp.isSome || !e.affection.isEmpty || !e.reputation.isEmpty

end BranchingStory
