/-!
# JSON trees

Documents, saves and answers are trees of type `Json`. Whole numbers written without point and
exponent are kept apart from the others, since some fields take nothing else. Objects keep their
fields in the order of the text, repeated names included: which repetition is an error and which
one wins is for the document types to say.
-/

namespace BranchingStory

/-- A JSON value. -/
inductive Json where
  | null
  | bool (b : Bool)
  | integer (n : Int)
  | real (x : Float)
  | text (s : String)
  | array (items : List Json)
  | object (fields : List (String × Json))
deriving Repr, Inhabited

/-- The fields of an object, in the order of the text. -/
abbrev Json.Fields := List (String × Json)

end BranchingStory
