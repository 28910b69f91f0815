import BranchingStory.Story.Chapters
/-!
# Endings

Where a story goes from the end of a chapter.
-/

namespace BranchingStory

/-- The end of a chapter: the chapter it is the end of, the one that follows, and whether the images
on stage go with it. -/
structure Ending where
  action : EndAction
  fromStage : String
  fromChapter : String
  nextStage : Option String
  nextChapter : Option String
  clearVisuals : Bool
deriving DecidableEq, Repr, Inhabited

/-- The chapter that follows, if it is known, with its stage. -/
def Ending.target? (e : Ending) : Option (String × String) :=
  e.nextStage.bind fun stage => e.nextChapter.map fun chapter => (stage, chapter)

/-- How a node ends its chapter. A node that does not say leads to the next chapter. -/
def Node.chapterEnd (n : Node) : ChapterEnd :=
  match n.kind with
  | .chapterEnd (some ending) => ending
  | _ => {}

/-- The stage and the chapter that follow an end. A `goto` that names no stage stays in its own, and
may name no chapter at all. -/
def Story.following (s : Story) (stage chapter : String) (e : ChapterEnd) :
    Option String × Option String :=
  match e.action with
  | .next =>
    match s.chapterAfter? stage chapter with
    | some (nextStage, nextChapter) => (some nextStage.id, some nextChapter.id)
    | none => (none, none)
  | .goto => (some ((given e.nextStage).getD stage), given e.nextChapter)
  | .select | .finish => (none, none)

/-- Where a story goes from a node at the end of a chapter. -/
def Story.ending (s : Story) (stage chapter : String) (n : Node) : Ending :=
  let e := n.chapterEnd
  let (nextStage, nextChapter) := s.following stage chapter e
  { action := e.action, fromStage := stage, fromChapter := chapter, nextStage, nextChapter
    clearVisuals := e.clearVisuals.getD true }

end BranchingStory
