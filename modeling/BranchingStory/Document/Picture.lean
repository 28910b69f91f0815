import BranchingStory.Json.Fields
import BranchingStory.Json.Form
import BranchingStory.Story.Picture
/-!
# Pictures in documents

The fields of a picture stand among those of what holds it: the directive of an image node, or an
image on stage.
-/

namespace BranchingStory

open Json (Fields Form Record)

namespace Alignment

/-- Reads the word for an alignment. -/
def form : Form Alignment := .word all word

/-- Writes the word for an alignment. -/
def toJson (a : Alignment) : Json := .text a.word

end Alignment

namespace EntranceEffect

/-- Reads the word for an entrance effect. -/
def form : Form EntranceEffect := .word all word

/-- Writes the word for an entrance effect. -/
def toJson (e : EntranceEffect) : Json := .text e.word

end EntranceEffect

namespace ExitEffect

/-- Reads the word for an exit effect. -/
def form : Form ExitEffect := .word all word

/-- Writes the word for an exit effect. -/
def toJson (e : ExitEffect) : Json := .text e.word

end ExitEffect

namespace Timing

/-- Reads the word for a timing. -/
def form : Form Timing := .word all word

/-- Writes the word for a timing. -/
def toJson (t : Timing) : Json := .text t.word

end Timing

namespace Picture

/-- Reads a picture, given how its path and its slot are read. -/
def record (path layer : Record String) (order : Record Int32) : Record Picture :=
  mk <$> path <*> (Slot.mk <$> layer <*> order)
    <*> .withDefault "alignment" .center Alignment.form <*> .optional "x" .double
    <*> .optional "y" .double <*> .optional "flipHorizontal" .boolean
    <*> .optional "objectFit" .text <*> .optional "effect" EntranceEffect.form
    <*> .withDefault "effects" [] EntranceEffect.form.list <*> .optional "effectDuration" .uint64

/-- Writes a picture. -/
def toFields (p : Picture) : Fields :=
  [("resourcePath", .text p.path), ("layer", .text p.slot.layer),
    ("layerOrder", .ofInt32 p.slot.order), ("alignment", p.alignment.toJson)]
    ++ Json.optionalField "x" .real p.x
    ++ Json.optionalField "y" .real p.y
    ++ Json.optionalField "flipHorizontal" .bool p.flip
    ++ Json.optionalField "objectFit" .text p.fit
    ++ Json.optionalField "effect" EntranceEffect.toJson p.effect
    ++ Json.listField "effects" EntranceEffect.toJson p.effects
    ++ Json.optionalField "effectDuration" .ofUInt64 p.duration

end Picture

namespace ImageDirective

/-- Reads a directive. -/
def form : Form ImageDirective :=
  let picture := Picture.record (.withDefault "resourcePath" "" .text)
    (.withDefault "layer" "" .text) (.withDefault "layerOrder" 0 .int32)
  .ofRecord <| mk <$> picture <*> .optional "exitEffect" ExitEffect.form
    <*> .optional "exitEffectDuration" .uint64
    <*> .withDefault "transitionTiming" .sequential Timing.form

/-- Writes a directive. -/
def toJson (d : ImageDirective) : Json :=
  .object (d.picture.toFields
    ++ Json.optionalField "exitEffect" ExitEffect.toJson d.exitEffect
    ++ Json.optionalField "exitEffectDuration" .ofUInt64 d.exitDuration
    ++ [("transitionTiming", d.timing.toJson)])

end ImageDirective

end BranchingStory
