import BranchingStory.Document.Node
import BranchingStory.Play.Ending
/-!
# Endings in documents

Endings are only written, for those who observe a story.
-/

namespace BranchingStory

/-- Writes an ending. -/
def Ending.toJson (e : Ending) : Json :=
  .object [("action", e.action.toJson), ("fromStageId", .text e.fromStage),
    ("fromChapterId", .text e.fromChapter), ("nextStageId", .ofOption .text e.nextStage),
    ("nextChapterId", .ofOption .text e.nextChapter), ("clearVisuals", .bool e.clearVisuals)]

end BranchingStory
