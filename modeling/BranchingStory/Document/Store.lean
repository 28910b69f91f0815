import BranchingStory.Document.Value
import BranchingStory.Play.Store
/-!
# Stores in documents
-/

namespace BranchingStory

open Json (Fields Form Record)

namespace Store

/-- Reads a store. -/
def form : Form Store :=
  .ofRecord <| mk <$> .withDefault "variables" .empty Value.form.keyMap
    <*> .withDefault "flags" .empty Value.form.keyMap
    <*> .withDefault "choicesMade" [] Form.text.list

/-- Writes a store. -/
def toJson (s : Store) : Json :=
  .object [("variables", .ofKeyMap Value.toJson s.values),
    ("flags", .ofKeyMap Value.toJson s.flags), ("choicesMade", .ofList .text s.choicesMade)]

end Store

end BranchingStory
