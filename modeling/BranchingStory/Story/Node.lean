import BranchingStory.Story.Condition
import BranchingStory.Story.Operation
import BranchingStory.Story.Picture
import BranchingStory.Text.Identifier
/-!
# Nodes

A chapter is a graph of nodes. Every node may lead to a next one; choice and condition nodes lead
to others as well.
-/

namespace BranchingStory

/-- One of the choices of a choice node. -/
structure Choice where
  id : String
  text : String := ""
  next : Option String := none
  condition : Option Condition := none
  effects : Option Effects := none
  resultText : Option String := none
  disabledText : Option String := none
deriving DecidableEq, Repr, Inhabited

/-- Where a choice leads. -/
def Choice.target? (c : Choice) : Option String := given c.next

/-- One of the branches of a condition node. -/
structure Branch where
  id : String := ""
  condition : Condition
  next : Option String := none
deriving DecidableEq, Repr, Inhabited

/-- Where a branch leads. -/
def Branch.target? (b : Branch) : Option String := given b.next

/-- What follows the end of a chapter: the next chapter, a chapter the player selects, the end of
the story, or a given chapter. -/
inductive EndAction where
  | next
  | select
  | finish
  | goto
deriving DecidableEq, Repr, Inhabited

namespace EndAction

/-- All actions at the end of a chapter. -/
def all : List EndAction := [next, select, finish, goto]

/-- The word for an action at the end of a chapter. -/
def word : EndAction → String
  | next => "next"
  | select => "select"
  | finish => "end"
  | goto => "goto"

end EndAction

/-- How a chapter ends. -/
structure ChapterEnd where
  action : EndAction := .next
  nextChapter : Option String := none
  nextStage : Option String := none
  clearVisuals : Option Bool := none
deriving DecidableEq, Repr, Inhabited

/-- The content of a custom node, for the program that shows the story. -/
structure CustomData where
  title : String := ""
  description : Option String := none
  values : KeyMap Value := .empty
deriving DecidableEq, Repr, Inhabited

/-- The types of nodes. -/
inductive NodeType where
  | start
  | dialogue
  | choice
  | battle
  | shop
  | event
  | chapterEnd
  | operations
  | condition
  | image
  | script
  | custom
deriving DecidableEq, Repr, Inhabited

namespace NodeType

/-- All types of nodes. -/
def all : List NodeType :=
  [start, dialogue, choice, battle, shop, event, chapterEnd, operations, condition, image,
    script, custom]

/-- The word for a type of nodes. -/
def word : NodeType → String
  | start => "start"
  | dialogue => "dialogue"
  | choice => "choice"
  | battle => "battle"
  | shop => "shop"
  | event => "event"
  | chapterEnd => "chapter_end"
  | operations => "variable"
  | condition => "condition"
  | image => "image"
  | script => "javascript"
  | custom => "custom"

end NodeType

/-- What a node of each type holds. -/
inductive NodeKind where
  | start
  | dialogue
  | choice (choices : List Choice)
  | battle (group : Option String)
  | shop
  | event (id : Option String)
  | chapterEnd (ending : Option ChapterEnd)
  | operations (list : List Operation)
  | condition (branches : List Branch) (otherwise : Option String)
  | image (directive : Option ImageDirective)
  | script (code : Option String)
  | custom (data : Option CustomData)
deriving DecidableEq, Repr, Inhabited

/-- The type of a node with this content. -/
def NodeKind.type : NodeKind → NodeType
  | start => .start
  | dialogue => .dialogue
  | choice _ => .choice
  | battle _ => .battle
  | shop => .shop
  | event _ => .event
  | chapterEnd _ => .chapterEnd
  | operations _ => .operations
  | condition .. => .condition
  | image _ => .image
  | script _ => .script
  | custom _ => .custom

/-- A node of a chapter. -/
structure Node where
  id : String
  next : Option String := none
  speaker : Option String := none
  text : Option String := none
  onEnter : Option Effects := none
  kind : NodeKind
deriving DecidableEq, Repr, Inhabited

namespace Node

/-- The type of a node. -/
def type (n : Node) : NodeType := n.kind.type

/-- The next node, if one is given. -/
def next? (n : Node) : Option String := given n.next

/-- The text of a node, empty when it has none. -/
def textOrEmpty (n : Node) : String := n.text.getD ""

/-- The nodes that a node may lead to: the next one, then those of its choices or branches, then
the one for when no branch is taken. -/
def targets (n : Node) : List String :=
  n.next?.toList ++
    match n.kind with
    | .choice choices => choices.filterMap Choice.target?
    | .condition branches otherwise =>
      branches.filterMap Branch.target? ++ (given otherwise).toList
    | _ => []

end Node

end BranchingStory
