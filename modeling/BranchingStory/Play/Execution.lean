import BranchingStory.Play.Store
/-!
# Running operations

Operations run in the order they are listed, each on the store as the one before left it. Whatever
makes no sense for the value at hand leaves the store as it is.
-/

namespace BranchingStory

namespace Action

/-- What an action makes of a number. -/
def onNumber (action : Action) (current operand : Float) : Float :=
  match action with
  | set => operand
  | add => current + operand
  | subtract => current - operand
  | multiply => current * operand
  | _ => current

/-- The place in a list that an index stands for, if there is one. -/
def position? (items : List Value) (index : Option Int64) : Option Nat :=
  index.bind fun i =>
    if 0 ≤ i.toInt ∧ i.toInt < items.length then some i.toInt.toNat else none

/-- What an action makes of a list. A list is set to another list only. -/
def onList (action : Action) (items : List Value) (operand : Option Value) (index : Option Int64) :
    List Value :=
  match action with
  | push => items ++ operand.toList
  | pop => items.dropLast
  | removeAt => (position? items index).elim items items.eraseIdx
  | setAt =>
    match position? items index, operand with
    | some i, some value => items.set i value
    | _, _ => items
  | clear => []
  | set =>
    match operand with
    | some (.list replacement) => replacement
    | _ => items
  | add | subtract | multiply => items

/-- What an action other than setting makes of a value. A text takes in the text of what is added
to it. -/
def onValue (action : Action) (current : Value) (operand : Option Value) (index : Option Int64) :
    Value :=
  match current with
  | .list items => .list (action.onList items operand index)
  | .number x => .number (action.onNumber x ((operand.bind Value.number?).getD 0))
  | .text s =>
    match action, operand with
    | add, some value => .text (s ++ value.display)
    | _, _ => current
  | .bool _ => current

/-- What an action other than setting makes of the value of a flag: only numbers change. -/
def onFlagValue (action : Action) (current : Value) (operand : Option Value) : Value :=
  match current with
  | .number x => .number (action.onNumber x ((operand.bind Value.number?).getD 0))
  | _ => current

end Action

namespace Store

/-- The value an operation works with: that of the source variable, if it is asked for and exists,
else the operation's own. -/
def operand (s : Store) (o : Operand) : Option Value :=
  ((if o.fromVariable then o.source.bind s.get? else none)).or o.literal

/-- The store after an action on a variable. A variable that holds a list stays a list; any other
is set to whatever it is set to, or removed. -/
def onVariable (s : Store) (id : String) (action : Action) (operand : Option Value)
    (index : Option Int64) : Store :=
  match action, s.get? id with
  | .set, some (.list items) => s.set id (.list (Action.set.onList items operand index))
  | .set, _ => operand.elim (s.unset id) (s.set id)
  | _, some current => s.set id (action.onValue current operand index)
  | _, none => s

/-- The store after an action on a flag. -/
def onFlag (s : Store) (key : String) (action : Action) (operand : Option Value) : Store :=
  match action, s.flag? key with
  | .set, _ => operand.elim (s.unsetFlag key) (s.setFlag key)
  | _, some current => s.setFlag key (action.onFlagValue current operand)
  | _, none => s

/-- The store after an operation. -/
def execute (s : Store) : Operation → Store
  | .onVariable id action o index =>
    (given id).elim s fun id => s.onVariable id action (s.operand o) index
  | .onFlag key action o => (given key).elim s fun key => s.onFlag key action (s.operand o)
  | .retired => s

/-- The store after some operations. -/
def executeAll (s : Store) (operations : List Operation) : Store := operations.foldl execute s

/-- The store after effects: their flags are set, and nothing else changes. -/
def applyEffects (s : Store) (e : Effects) : Store :=
  e.setFlags.entries.foldl (fun s (key, value) => s.setFlag key value) s

end Store

end BranchingStory
