import BranchingStory.Story.Node
/-!
# Stories

A `Story` is a list of stages, a `Stage` a list of chapters and a `Chapter` a list of nodes.
Variables are declared for the whole story or for one chapter. Things are found by their ids; of
several with the same id the first one counts.
-/

namespace BranchingStory

/-- The declaration of a variable. -/
structure Declaration where
  id : String
  name : String
  type : ValueType
  initial : Value
  itemType : Option ValueType := none
  description : Option String := none
deriving DecidableEq, Repr, Inhabited

/-- A declaration of the type of its initial value. -/
def Declaration.ofValue (id name : String) (initial : Value) : Declaration :=
  { id, name, type := initial.type, initial }

/-- A chapter: a graph of nodes. -/
structure Chapter where
  id : String
  title : String := ""
  description : String := ""
  nodes : List Node := []
  start : String := ""
  declared : List Declaration := []
  otherName : Option String := none
deriving DecidableEq, Repr, Inhabited

namespace Chapter

/-- The node with an id. -/
def node? (c : Chapter) (id : String) : Option Node := c.nodes.find? (·.id = id)

/-- The node at which the chapter begins: the designated one if it exists, else the first start
node, else the first node. -/
def entry? (c : Chapter) : Option String :=
  if (c.node? c.start).isSome then some c.start
  else ((c.nodes.find? (·.type = .start)).or c.nodes.head?).map (·.id)

/-- The nodes of a type. -/
def nodesOfType (c : Chapter) (t : NodeType) : List Node := c.nodes.filter (·.type = t)

end Chapter

/-- A stage: a list of chapters. -/
structure Stage where
  id : String
  title : String := ""
  description : String := ""
  chapters : List Chapter := []
deriving DecidableEq, Repr, Inhabited

/-- The chapter with an id. -/
def Stage.chapter? (s : Stage) (id : String) : Option Chapter := s.chapters.find? (·.id = id)

/-- What a story says about the way it is to be shown. -/
structure Presentation where
  mode : Option String := none
  theme : Option String := none
deriving DecidableEq, Repr, Inhabited

/-- A whole story. -/
structure Story where
  name : String := ""
  version : String := ""
  stages : List Stage := []
  declared : List Declaration := []
  presentation : Option Presentation := none
deriving DecidableEq, Repr, Inhabited

/-- A part of a story that is not there. -/
inductive Missing where
  | stage (id : String)
  | chapter (stageId : String) (id : String)
deriving DecidableEq, Repr, Inhabited

/-- The missing part in words. -/
def Missing.message : Missing → String
  | stage id => s!"stage not found: \"{id}\""
  | chapter stageId id => s!"chapter not found: \"{id}\" in stage \"{stageId}\""

namespace Story

/-- The stage with an id. -/
def stage? (s : Story) (id : String) : Option Stage := s.stages.find? (·.id = id)

/-- The chapter with an id in the stage with an id. -/
def chapter? (s : Story) (stage chapter : String) : Option Chapter :=
  (s.stage? stage).bind (·.chapter? chapter)

/-- The stage and the chapter with the given ids; the first ones where none is given. -/
def resolve (s : Story) (stage chapter : Option String) : Except Missing (Stage × Chapter) := do
  let found ← match stage with
    | some id => (s.stage? id).elim (.error (.stage id)) .ok
    | none => s.stages.head?.elim (.error (.stage "<first>")) .ok
  let inside ← match chapter with
    | some id => (found.chapter? id).elim (.error (.chapter found.id id)) .ok
    | none => found.chapters.head?.elim (.error (.chapter found.id "<first>")) .ok
  return (found, inside)

/-- What comes after the first chapter with an id, in a list of chapters: nothing if there is no
such chapter, otherwise the chapters that follow it. -/
def chaptersAfter? (id : String) : List Chapter → Option (List Chapter)
  | [] => none
  | c :: rest => if c.id = id then some rest else chaptersAfter? id rest

/-- The first chapter of the first stage that has any. -/
def firstChapter? : List Stage → Option (Stage × Chapter)
  | [] => none
  | s :: rest =>
    match s.chapters with
    | c :: _ => some (s, c)
    | [] => firstChapter? rest

/-- The chapter after a given one, in a list of stages. It may be in a later stage; stages without
chapters are passed over. -/
def chapterAfterIn? (stage chapter : String) : List Stage → Option (Stage × Chapter)
  | [] => none
  | s :: rest =>
    if s.id = stage then
      match chaptersAfter? chapter s.chapters with
      | none => none
      | some (c :: _) => some (s, c)
      | some [] => firstChapter? rest
    else chapterAfterIn? stage chapter rest

/-- The chapter after a given one, with its stage. -/
def chapterAfter? (s : Story) (stage chapter : String) : Option (Stage × Chapter) :=
  chapterAfterIn? stage chapter s.stages

/-- The declarations that hold in a chapter, its own first. -/
def declarations (s : Story) (chapter : Option Chapter) : List Declaration :=
  (chapter.elim [] (·.declared)) ++ s.declared

/-- The declaration with a name that holds in a chapter. -/
def declarationNamed? (s : Story) (chapter : Option Chapter) (name : String) : Option Declaration :=
  (s.declarations chapter).find? (·.name = name)

end Story

end BranchingStory
