import BranchingStory.Story.Chapters
/-!
# The store

What a story knows while it is played: the values of its variables, flags, and the choices made so
far. Variables go by their ids and start at their initial values.
-/

namespace BranchingStory

/-- The values of the variables, the flags and the choices made, the latest choice last. -/
structure Store where
  values : KeyMap Value := .empty
  flags : KeyMap Value := .empty
  choicesMade : List String := []
deriving DecidableEq, Repr, Inhabited

namespace Store

/-- The value of a variable. -/
def get? (s : Store) (id : String) : Option Value := s.values.get? id

/-- The value of a flag. -/
def flag? (s : Store) (key : String) : Option Value := s.flags.get? key

/-- The store with the value of a variable set. -/
def set (s : Store) (id : String) (value : Value) : Store :=
  { s with values := s.values.insert id value }

/-- The store without a variable. -/
def unset (s : Store) (id : String) : Store := { s with values := s.values.erase id }

/-- The store with the value of a flag set. -/
def setFlag (s : Store) (key : String) (value : Value) : Store :=
  { s with flags := s.flags.insert key value }

/-- The store without a flag. -/
def unsetFlag (s : Store) (key : String) : Store := { s with flags := s.flags.erase key }

/-- The store with every declared variable at its initial value, whatever it was before. -/
def seed (s : Store) (declarations : List Declaration) : Store :=
  declarations.foldl (fun s d => s.set d.id d.initial) s

/-- The store at the start of a story: the variables of the story, then those of a chapter, which
win over variables of the story with the same id. -/
def initial (story chapter : List Declaration) : Store := (({} : Store).seed story).seed chapter

/-- The store after a choice was made. -/
def recordChoice (s : Store) (choice : String) : Store :=
  { s with choicesMade := s.choicesMade ++ [choice] }

/-- Whether a choice was ever made. -/
def hasMadeChoice (s : Store) (choice : String) : Bool := s.choicesMade.contains choice

end Store

end BranchingStory
