import BranchingStory.Document.Value
import BranchingStory.Story.Condition
/-!
# Conditions in documents

A condition is an object whose field `type` says what it is. One of a type nobody knows is
`unknown` whatever else it holds, and nothing else of it is kept. All fields are written, `null`
where there is nothing.
-/

namespace BranchingStory

open Json (Fields Form Record)

namespace Comparison

/-- Reads the sign for a comparison. -/
def form : Form Comparison := .word all symbol

/-- Writes the sign for a comparison. -/
def toJson (c : Comparison) : Json := .text c.symbol

end Comparison

namespace Bounds

/-- Reads bounds. -/
def record : Record Bounds :=
  mk <$> .optional "min" .double <*> .optional "max" .double <*> .optional "value" Value.form

/-- Writes bounds. -/
def toFields (b : Bounds) : Fields :=
  [("min", .ofOption .real b.min), ("max", .ofOption .real b.max),
    ("value", .ofOption Value.toJson b.value)]

end Bounds

namespace Condition

/-- Reads the fields of a condition whose kind the word says. -/
def ofWord : String → Record Condition
  | "variable" =>
    compare <$> .optional "variableId" .text <*> .optional "operator" Comparison.form
      <*> .optional "value" Value.form
  | "gold" => gold <$> Bounds.record
  | "hp" => hp <$> Bounds.record
  | "flag" => flag <$> .optional "flagKey" .text <*> .optional "flagValue" Value.form
  | "choice_made" => choiceMade <$> .optional "choiceId" .text
  | "affection" => affection <$> .optional "characterId" .text <*> Bounds.record
  | "reputation" => reputation <$> .optional "factionId" .text <*> Bounds.record
  | "has_relic" => relic <$> .optional "value" Value.form
  | "character" => character <$> .optional "characterId" .text
  | _ => pure unknown

/-- Reads a condition. -/
def form : Form Condition := .ofWhole (.tagged "type" .text ofWord)

/-- What a condition holds besides its type. -/
def payload : Condition → Fields
  | compare id comparison value =>
    [("variableId", .ofOption .text id), ("operator", .ofOption Comparison.toJson comparison),
      ("value", .ofOption Value.toJson value)]
  | gold bounds | hp bounds => bounds.toFields
  | flag key value =>
    [("flagKey", .ofOption .text key), ("flagValue", .ofOption Value.toJson value)]
  | choiceMade choice => [("choiceId", .ofOption .text choice)]
  | affection person bounds => ("characterId", .ofOption .text person) :: bounds.toFields
  | reputation faction bounds => ("factionId", .ofOption .text faction) :: bounds.toFields
  | relic value => [("value", .ofOption Value.toJson value)]
  | character person => [("characterId", .ofOption .text person)]
  | unknown => []

/-- Writes a condition. -/
def toJson (c : Condition) : Json := .object (("type", .text c.word) :: c.payload)

end Condition

end BranchingStory
