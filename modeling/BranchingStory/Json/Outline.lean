/-!
# What is looked at

No type of documents looks at every part of a text. An `Outline` tells a reader which parts count,
before it reads them. A part that is skipped has to follow the grammar and nothing else: its numbers
may be too large for a double, its strings may hold half a surrogate pair, and it may be nested to
any depth.
-/

namespace BranchingStory.Json

/-- What is looked at of a value: all of it, nothing of it, a word, or the parts of an array or of
an object. A word is given as a string, or as an object with a field of that name. -/
inductive Outline where
  | whole
  | skipped
  | word (orNull : Bool)
  | list (item : Outline)
  | record (fields : List (String × Outline)) (others : Outline)
deriving Repr, Inhabited

namespace Outline

/-- Whether nothing of the value is looked at. -/
def isSkipped : Outline → Bool
  | skipped => true
  | _ => false

/-- The outline of a value that may also be `null`. -/
def orNull : Outline → Outline
  | word _ => word true
  | other => other

/-- What is looked at of an item of an array. -/
def item : Outline → Outline
  | list item => item
  | skipped => skipped
  | _ => whole

/-- What is looked at of a field of an object. -/
def field (name : String) : Outline → Outline
  | record fields others => (fields.lookup name).getD others
  | skipped => skipped
  | _ => whole

/-- Whether a value may start with a character, as far as that depends on what it is for. -/
def admits (c : Char) : Outline → Bool
  | word orNull => c = '"' ∨ c = '{' ∨ (orNull ∧ c = 'n')
  | _ => true

/-- Whether an object without fields will do. -/
def admitsNoFields : Outline → Bool
  | word _ => false
  | _ => true

end Outline

end BranchingStory.Json
