import BranchingStory.Document.Value
import BranchingStory.Story.Operation
/-!
# Operations and effects in documents

An operation is an object whose field `target` says what it works on. Whatever has a target nobody
knows is `retired`, and nothing else of it is kept.
-/

namespace BranchingStory

open Json (Fields Form Record)

namespace Action

/-- Reads the word for an action. -/
def form : Form Action := .word all word

/-- Writes the word for an action. -/
def toJson (a : Action) : Json := .text a.word

end Action

namespace Operand

/-- Reads an operand. -/
def record : Record Operand :=
  mk <$> .optional "value" Value.form <*> .withDefault "useVariableValue" false .boolean
    <*> .optional "sourceVariableId" .text

/-- Writes where an operand is taken from. -/
def sourceFields (o : Operand) : Fields :=
  Json.trueField "useVariableValue" o.fromVariable
    ++ Json.optionalField "sourceVariableId" .text o.source

end Operand

namespace Operation

/-- Reads the fields of an operation whose target the word says. -/
def ofTarget : String → Record Operation
  | "variable" =>
    onVariable <$> .optional "variableId" .text <*> .required "action" Action.form
      <*> Operand.record <*> .optional "index" .int64
  | "flag" =>
    onFlag <$> .optional "key" .text <*> .required "action" Action.form <*> Operand.record
  | _ => pure retired

/-- Reads an operation. -/
def form : Form Operation := .ofWhole (.tagged "target" .text ofTarget)

/-- Writes an operation. -/
def toJson : Operation → Json
  | onVariable id action operand index =>
    .object ([("target", .text "variable"), ("variableId", .ofOption .text id),
      ("action", action.toJson), ("value", .ofOption Value.toJson operand.literal)]
      ++ Json.optionalField "index" .ofInt64 index ++ operand.sourceFields)
  | onFlag key action operand =>
    .object ([("target", .text "flag"), ("key", .ofOption .text key), ("action", action.toJson),
      ("value", .ofOption Value.toJson operand.literal)] ++ operand.sourceFields)
  | retired => .object [("target", .text "retired")]

end Operation

namespace StatChange

/-- Reads a change. What it concerns has a name of its own for characters and for factions. -/
def form : Form StatChange :=
  .ofRecord <| mk <$> .requiredAs ["subject", "characterId", "factionId"] .text
    <*> .required "delta" .double

/-- Writes a change. -/
def toJson (s : StatChange) : Json :=
  .object [("subject", .text s.subject), ("delta", .real s.delta)]

end StatChange

namespace Effects

/-- Reads effects. -/
def form : Form Effects :=
  .ofRecord <| mk <$> .withDefault "setFlags" .empty Value.form.keyMap <*> .optional "gold" .double
    <*> .optional "hp" .double <*> .withDefault "affection" [] StatChange.form.list
    <*> .withDefault "reputation" [] StatChange.form.list <*> .optional "cardId" .text
    <*> .optional "relicId" .text

/-- Writes effects. -/
def toJson (e : Effects) : Json :=
  .object (Json.mapField "setFlags" Value.toJson e.setFlags
    ++ Json.optionalField "gold" .real e.gold
    ++ Json.optionalField "hp" .real e.hp
    ++ Json.listField "affection" StatChange.toJson e.affection
    ++ Json.listField "reputation" StatChange.toJson e.reputation
    ++ Json.optionalField "cardId" .text e.card
    ++ Json.optionalField "relicId" .text e.relic)

end Effects

end BranchingStory
