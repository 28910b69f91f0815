import BranchingStory.Document.Condition
import BranchingStory.Document.Operation
import BranchingStory.Document.Picture
import BranchingStory.Story.Node
/-!
# Nodes in documents

A node is one object: the fields that all nodes have, then the `type`, then what a node of that type
holds. All fields but the common ones are taken in whole before they are looked at.
-/

namespace BranchingStory

open Json (Fields Form Record)

namespace Choice

/-- Reads a choice. -/
def form : Form Choice :=
  .ofRecord <| mk <$> .required "id" .text <*> .withDefault "text" "" .text
    <*> .optional "nextNodeId" .text <*> .optional "condition" Condition.form
    <*> .optional "effects" Effects.form <*> .optional "resultText" .text
    <*> .optional "disabledText" .text

/-- Writes a choice. -/
def toJson (c : Choice) : Json :=
  .object ([("id", .text c.id), ("text", .text c.text)]
    ++ Json.optionalField "nextNodeId" .text c.next
    ++ Json.optionalField "condition" Condition.toJson c.condition
    ++ Json.optionalField "effects" Effects.toJson c.effects
    ++ Json.optionalField "resultText" .text c.resultText
    ++ Json.optionalField "disabledText" .text c.disabledText)

end Choice

namespace Branch

/-- Reads a branch. -/
def form : Form Branch :=
  .ofRecord <| mk <$> .withDefault "id" "" .text <*> .required "condition" Condition.form
    <*> .optional "nextNodeId" .text

/-- Writes a branch. -/
def toJson (b : Branch) : Json :=
  .object ([("id", .text b.id), ("condition", b.condition.toJson)]
    ++ Json.optionalField "nextNodeId" .text b.next)

end Branch

namespace EndAction

/-- Reads the word for an action at the end of a chapter. -/
def form : Form EndAction := .word all word

/-- Writes the word for an action at the end of a chapter. -/
def toJson (a : EndAction) : Json := .text a.word

end EndAction

namespace ChapterEnd

/-- Reads the end of a chapter. -/
def form : Form ChapterEnd :=
  .ofRecord <| mk <$> .withDefault "action" .next EndAction.form <*> .optional "nextChapterId" .text
    <*> .optional "nextStageId" .text <*> .optional "clearVisuals" .boolean

/-- Writes the end of a chapter. -/
def toJson (e : ChapterEnd) : Json :=
  .object (("action", e.action.toJson)
    :: Json.optionalField "nextChapterId" .text e.nextChapter
    ++ Json.optionalField "nextStageId" .text e.nextStage
    ++ Json.optionalField "clearVisuals" .bool e.clearVisuals)

end ChapterEnd

namespace CustomData

/-- Reads the content of a custom node. -/
def form : Form CustomData :=
  .ofRecord <| mk <$> .withDefault "title" "" .text <*> .optional "description" .text
    <*> .withDefault "values" .empty Value.form.keyMap

/-- Writes the content of a custom node. -/
def toJson (d : CustomData) : Json :=
  .object (("title", .text d.title) :: Json.optionalField "description" .text d.description
    ++ [("values", .ofKeyMap Value.toJson d.values)])

end CustomData

/-- Reads the word for a type of nodes. -/
def NodeType.form : Form NodeType := .word all word

namespace NodeKind

/-- Reads what a node of a type holds. -/
def ofType : NodeType → Record NodeKind
  | .start => pure start
  | .dialogue => pure dialogue
  | .choice => choice <$> .withDefault "choices" [] Choice.form.list
  | .battle => battle <$> .optional "battleGroupId" .text
  | .shop => pure shop
  | .event => event <$> .optional "eventId" .text
  | .chapterEnd => chapterEnd <$> .optional "chapterEndData" ChapterEnd.form
  | .operations => operations <$> .withDefault "variableOperations" [] Operation.form.list
  | .condition =>
    condition <$> .withDefault "conditionBranches" [] Branch.form.list
      <*> .optional "defaultNextNodeId" .text
  | .image => image <$> .optional "imageData" ImageDirective.form
  | .script => script <$> .optional "javascriptCode" .text
  | .custom => custom <$> .optional "customData" CustomData.form

/-- Reads the type of a node and what it holds, among other fields. -/
def record : Record NodeKind := .tagged "type" NodeType.form ofType

/-- Reads the type of a node and what it holds. -/
def form : Form NodeKind := .ofWhole record

/-- What a node holds besides its type. -/
def payload : NodeKind → Fields
  | start | dialogue | shop => []
  | choice choices => [("choices", .ofList Choice.toJson choices)]
  | battle group => Json.optionalField "battleGroupId" .text group
  | event id => Json.optionalField "eventId" .text id
  | chapterEnd ending => Json.optionalField "chapterEndData" ChapterEnd.toJson ending
  | operations list => [("variableOperations", .ofList Operation.toJson list)]
  | condition branches otherwise =>
    ("conditionBranches", .ofList Branch.toJson branches)
      :: Json.optionalField "defaultNextNodeId" .text otherwise
  | image directive => Json.optionalField "imageData" ImageDirective.toJson directive
  | script code => Json.optionalField "javascriptCode" .text code
  | custom data => Json.optionalField "customData" CustomData.toJson data

/-- Writes the type of a node and what it holds. -/
def toFields (k : NodeKind) : Fields := ("type", .text k.type.word) :: k.payload

end NodeKind

namespace Node

/-- Reads the fields that all nodes have. -/
def common : Record (NodeKind → Node) :=
  mk <$> .required "id" .text <*> .optional "nextNodeId" .text <*> .optional "speaker" .text
    <*> .optional "text" .text <*> .optional "onEnterEffects" Effects.form

/-- Reads a node. -/
def form : Form Node := .ofRecordWith common NodeKind.record

/-- Writes a node. -/
def toJson (n : Node) : Json :=
  .object (("id", .text n.id)
    :: Json.optionalField "nextNodeId" .text n.next
    ++ Json.optionalField "speaker" .text n.speaker
    ++ Json.optionalField "text" .text n.text
    ++ Json.optionalField "onEnterEffects" Effects.toJson n.onEnter
    ++ n.kind.toFields)

end Node

end BranchingStory
