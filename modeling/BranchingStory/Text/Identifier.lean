/-!
# Identifiers

Documents name things by text. The empty text names nothing, wherever a name may be left out.
-/

namespace BranchingStory

/-- The name given, if any; an empty one does not count. -/
def given (name : Option String) : Option String := name.filter (· ≠ "")

end BranchingStory
