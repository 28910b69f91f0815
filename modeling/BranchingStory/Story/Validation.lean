import BranchingStory.Story.Chapters
/-!
# Validation

Finds faults in the structure of a story. None of them keeps a story from being played: where an
edge leads nowhere the story stops. An error is a fault that keeps a chapter from working at all.
-/

namespace BranchingStory

/-- A fault in the structure of a story. -/
structure Issue where
  isError : Bool
  location : String
  message : String
deriving DecidableEq, Repr, Inhabited

namespace Issue

/-- A fault that is an error. -/
def error (location message : String) : Issue := ⟨true, location, message⟩

/-- A fault that is a warning. -/
def warning (location message : String) : Issue := ⟨false, location, message⟩

/-- The word for how bad a fault is. -/
def level (i : Issue) : String := if i.isError then "error" else "warning"

/-- The fault in words. -/
def text (i : Issue) : String := s!"{i.level}: {i.location}: {i.message}"

end Issue

namespace Chapter

/-- The ids of the nodes. -/
def nodeIds (c : Chapter) : List String := c.nodes.map (·.id)

/-- The issue of having no start node, or several. -/
def startIssues (c : Chapter) (location : String) : List Issue :=
  match (c.nodesOfType .start).length with
  | 0 => [.error location "no start node"]
  | 1 => []
  | n => [.warning location s!"{n} start nodes (one is recommended)"]

/-- The issue of having no end. -/
def endIssues (c : Chapter) (location : String) : List Issue :=
  if (c.nodesOfType .chapterEnd).isEmpty then [.error location "no chapter_end node"] else []

/-- One issue for every id that was there before: `earlier` holds the ids seen so far. -/
def duplicateIssues (location : String) : (earlier ids : List String) → List Issue
  | _, [] => []
  | earlier, id :: rest =>
    if earlier.contains id then
      .warning location s!"duplicate node id '{id}'" :: duplicateIssues location earlier rest
    else duplicateIssues location (id :: earlier) rest

/-- The issue of a designated start that does not exist. -/
def designatedStartIssues (c : Chapter) (location : String) : List Issue :=
  if c.start ≠ "" ∧ c.start ∉ c.nodeIds then
    [.warning location s!"startNodeId '{c.start}' does not exist"]
  else []

/-- One issue for every target of a node that does not exist. -/
def danglingIssues (c : Chapter) (location : String) (n : Node) : List Issue :=
  (n.targets.filter (· ∉ c.nodeIds)).map fun target =>
    .warning location s!"node '{n.id}' points to missing node '{target}'"

/-- The issues of a chapter of a stage. -/
def issues (c : Chapter) (stageTitle : String) : List Issue :=
  let location := s!"stage '{stageTitle}' / chapter '{c.title}'"
  c.startIssues location ++ c.endIssues location ++ duplicateIssues location [] c.nodeIds
    ++ c.designatedStartIssues location ++ c.nodes.flatMap (c.danglingIssues location)

end Chapter

/-- The issues of a stage. -/
def Stage.issues (s : Stage) : List Issue :=
  if s.chapters.isEmpty then [.warning s!"stage '{s.title}'" "no chapters defined"]
  else s.chapters.flatMap (·.issues s.title)

namespace Story

/-- The issues of a story. -/
def issues (s : Story) : List Issue :=
  if s.stages.isEmpty then [.error s!"project '{s.name}'" "no stages defined"]
  else s.stages.flatMap (·.issues)

/-- The issues of the chapter with an id in the stage with an id. -/
def chapterIssues (s : Story) (stage chapter : String) : List Issue :=
  match s.stage? stage with
  | none => [.error s!"stage '{stage}'" "stage not found"]
  | some found =>
    match found.chapter? chapter with
    | none => [.error s!"stage '{found.title}'" s!"chapter '{chapter}' not found"]
    | some c => c.issues found.title

end Story

end BranchingStory
