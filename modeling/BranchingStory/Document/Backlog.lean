import BranchingStory.Document.Node
import BranchingStory.Play.Backlog
/-!
# Backlogs in documents
-/

namespace BranchingStory

open Json (Fields Form Record)

namespace SeenImage

/-- Reads an image as the backlog remembers it. -/
def form : Form SeenImage :=
  .ofRecord <| mk <$> .required "resourcePath" .text <*> .required "layer" .text
    <*> .withDefault "isRemoval" false .boolean <*> .optional "effect" EntranceEffect.form
    <*> .withDefault "effects" [] EntranceEffect.form.list
    <*> .optional "effectDuration" .uint64

/-- Writes an image as the backlog remembers it. -/
def toJson (i : SeenImage) : Json :=
  .object ([("resourcePath", .text i.path), ("layer", .text i.layer),
      ("isRemoval", .bool i.isRemoval)]
    ++ Json.optionalField "effect" EntranceEffect.toJson i.effect
    ++ Json.listField "effects" EntranceEffect.toJson i.effects
    ++ Json.optionalField "effectDuration" .ofUInt64 i.duration)

end SeenImage

namespace Beat

/-- Reads an entry. -/
def form : Form Beat :=
  .ofRecord <| mk <$> .required "nodeId" .text <*> .required "type" NodeType.form
    <*> .withDefault "content" "" .text <*> .optional "speaker" .text
    <*> .required "timestamp" .int64 <*> .optional "choiceText" .text
    <*> .optional "imageData" SeenImage.form

/-- Writes an entry. -/
def toJson (b : Beat) : Json :=
  .object ([("nodeId", .text b.node), ("type", .text b.type.word), ("content", .text b.content)]
    ++ Json.optionalField "speaker" .text b.speaker
    ++ [("timestamp", .ofInt64 b.time)]
    ++ Json.optionalField "choiceText" .text b.choice
    ++ Json.optionalField "imageData" SeenImage.toJson b.image)

end Beat

namespace Backlog

/-- Reads a backlog, of any length. -/
def form : Form Backlog := Beat.form.list.map mk

/-- Writes a backlog. -/
def toJson (b : Backlog) : Json := .ofList Beat.toJson b.beats

end Backlog

end BranchingStory
