import BranchingStory.Document.Backlog
import BranchingStory.Document.Scene
import BranchingStory.Document.Store
import BranchingStory.Json.Writer
import BranchingStory.Play.Playthrough
/-!
# Saves

A save is the document of a playthrough, in one line. Older saves lack some fields, so every field
has a default.
-/

namespace BranchingStory

open Json (Fields Form Record)

namespace Status

/-- Reads the word for a status. -/
def form : Form Status := .word all word

/-- Writes the word for a status. -/
def toJson (s : Status) : Json := .text s.word

end Status

namespace Playthrough

/-- Reads a playthrough. -/
def form : Form Playthrough :=
  .ofRecord <| mk <$> .withDefault "currentNodeId" "" .text
    <*> .withDefault "currentStageId" "" .text <*> .withDefault "currentChapterId" "" .text
    <*> .withDefault "variables" {} Store.form <*> .withDefault "history" {} Backlog.form
    <*> .withDefault "activeImages" {} Scene.form
    <*> .withDefault "startedAt" 0 .int64 <*> .withDefault "playTime" 0 .int64
    <*> .optional "lastChoiceIndex" .uint64 <*> .optional "lastChoiceText" .text
    <*> .withDefault "status" .idle Status.form

/-- Writes a playthrough. -/
def toJson (p : Playthrough) : Json :=
  .object ([("currentNodeId", .text p.node), ("currentStageId", .text p.stage),
      ("currentChapterId", .text p.chapter), ("variables", p.store.toJson),
      ("history", p.backlog.toJson), ("activeImages", p.scene.toJson),
      ("startedAt", .ofInt64 p.startedAt), ("playTime", .ofInt64 p.playTime)]
    ++ Json.optionalField "lastChoiceIndex" .ofUInt64 p.lastIndex
    ++ Json.optionalField "lastChoiceText" .text p.lastText
    ++ [("status", p.status.toJson)])

/-- Reads the text of a save. -/
def parse (text : String) : Json.Reading Playthrough := form.parse text

/-- The text of a save. -/
def text (p : Playthrough) : String := p.toJson.compact

end Playthrough

end BranchingStory
