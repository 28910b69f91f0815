import BranchingStory.Document.Picture
import BranchingStory.Play.Scene
/-!
# Scenes in documents
-/

namespace BranchingStory

open Json (Fields Form Record)

namespace StageImage

/-- Reads an image on stage. -/
def form : Form StageImage :=
  let picture := Picture.record (.required "resourcePath" .text) (.required "layer" .text)
    (.required "layerOrder" .int32)
  .ofRecord <| mk <$> .required "id" .text <*> .required "instanceId" .uint64 <*> picture
    <*> .withDefault "isExiting" false .boolean <*> .optional "exitEffect" ExitEffect.form
    <*> .optional "exitEffectDuration" .uint64

/-- Writes an image on stage. -/
def toJson (i : StageImage) : Json :=
  .object ([("id", .text i.node), ("instanceId", .ofUInt64 i.serial)]
    ++ i.picture.toFields
    ++ Json.trueField "isExiting" i.exiting
    ++ Json.optionalField "exitEffect" ExitEffect.toJson i.exitEffect
    ++ Json.optionalField "exitEffectDuration" .ofUInt64 i.exitDuration)

end StageImage

namespace Scene

/-- Reads a scene. -/
def form : Form Scene := StageImage.form.list.map mk

/-- Writes a scene. -/
def toJson (s : Scene) : Json := .ofList StageImage.toJson s.images

end Scene

end BranchingStory
