import BranchingStory.Document.Node
import BranchingStory.Json.Writer
import BranchingStory.Story.Chapters
/-!
# Story documents

Hardly a field of a story is required: ids, and all of a declaration but its description.
`Story.parse` reads a story from its text, and `Story.text` writes it with one line for every item
and field.
-/

namespace BranchingStory

open Json (Fields Form Record)

namespace Declaration

/-- Reads a declaration. -/
def form : Form Declaration :=
  .ofRecord <| mk <$> .required "id" .text <*> .required "name" .text
    <*> .required "type" ValueType.form <*> .required "defaultValue" Value.form
    <*> .optional "arrayItemType" ValueType.form <*> .optional "description" .text

/-- Writes a declaration. -/
def toJson (d : Declaration) : Json :=
  .object ([("id", .text d.id), ("name", .text d.name), ("type", d.type.toJson),
      ("defaultValue", d.initial.toJson)]
    ++ Json.optionalField "arrayItemType" ValueType.toJson d.itemType
    ++ Json.optionalField "description" .text d.description)

end Declaration

namespace Chapter

/-- Reads a chapter. -/
def form : Form Chapter :=
  .ofRecord <| mk <$> .required "id" .text <*> .withDefault "title" "" .text
    <*> .withDefault "description" "" .text <*> .withDefault "nodes" [] Node.form.list
    <*> .withDefault "startNodeId" "" .text <*> .withDefault "variables" [] Declaration.form.list
    <*> .optional "alias" .text

/-- Writes a chapter. -/
def toJson (c : Chapter) : Json :=
  .object ([("id", .text c.id), ("title", .text c.title), ("description", .text c.description),
      ("nodes", .ofList Node.toJson c.nodes), ("startNodeId", .text c.start)]
    ++ Json.listField "variables" Declaration.toJson c.declared
    ++ Json.optionalField "alias" .text c.otherName)

end Chapter

namespace Stage

/-- Reads a stage. -/
def form : Form Stage :=
  .ofRecord <| mk <$> .required "id" .text <*> .withDefault "title" "" .text
    <*> .withDefault "description" "" .text <*> .withDefault "chapters" [] Chapter.form.list

/-- Writes a stage. -/
def toJson (s : Stage) : Json :=
  .object [("id", .text s.id), ("title", .text s.title), ("description", .text s.description),
    ("chapters", .ofList Chapter.toJson s.chapters)]

end Stage

namespace Presentation

/-- Reads what a story says about its presentation. -/
def form : Form Presentation :=
  .ofRecord <| mk <$> .optional "defaultGameMode" .text <*> .optional "defaultThemeId" .text

/-- Writes what a story says about its presentation. -/
def toJson (p : Presentation) : Json :=
  .object (Json.optionalField "defaultGameMode" .text p.mode
    ++ Json.optionalField "defaultThemeId" .text p.theme)

end Presentation

namespace Story

/-- Reads a story. -/
def form : Form Story :=
  .ofRecord <| mk <$> .withDefault "name" "" .text <*> .withDefault "version" "" .text
    <*> .withDefault "stages" [] Stage.form.list
    <*> .withDefault "variables" [] Declaration.form.list
    <*> .optional "gameSettings" Presentation.form

/-- Writes a story. -/
def toJson (s : Story) : Json :=
  .object ([("name", .text s.name), ("version", .text s.version),
      ("stages", .ofList Stage.toJson s.stages),
      ("variables", .ofList Declaration.toJson s.declared)]
    ++ Json.optionalField "gameSettings" Presentation.toJson s.presentation)

/-- Reads the text of a story document. -/
def parse (text : String) : Json.Reading Story := form.parse text

/-- The text of a story document. -/
def text (s : Story) : String := s.toJson.indented

end Story

end BranchingStory
