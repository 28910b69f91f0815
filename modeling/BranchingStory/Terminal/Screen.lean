import BranchingStory.Play.Engine
import BranchingStory.Terminal.Table
/-!
# What a player sees

The scene, nodes and variables as text.
-/

namespace BranchingStory.Terminal

/-- The images that are to be seen. -/
def shownImages (s : Scene) : List String :=
  (s.images.filter (!·.exiting)).map fun i => s!"{i.picture.path} ({i.slot.layer})"

/-- The line for a scene. -/
def sceneLine (images : List String) : String :=
  if images.isEmpty then "  [scene cleared]\n"
  else
    let listed := String.intercalate ", " images
    s!"  [scene: {listed}]\n"

/-- The word shown above a node of a type that a terminal cannot do more for. -/
def nodeTag? : NodeType → Option String
  | .battle => some "battle"
  | .shop => some "shop"
  | .event => some "event"
  | .custom => some "custom"
  | .chapterEnd => some "end of chapter"
  | _ => none

/-- The line for what a node says, if there is one. A speaker may say nothing. -/
def speech (speaker : Option String) (text : String) : String :=
  match given speaker with
  | some name => s!"  {name}: {text}\n"
  | none => if text = "" then "" else s!"  {text}\n"

/-- The line for a choice. -/
def offerLine (e : Engine) (o : Offer) : String :=
  let label := e.interpolate o.label
  let lock := if o.enabled then "" else " (locked)"
  s!"    {o.index + 1}) {label}{lock}\n"

/-- A node as it is shown. Its choices are, if the story is still at that node. -/
def nodeText (e : Engine) (n : Node) : String :=
  let tag := match nodeTag? n.type with
    | some tag => s!"  [{tag}]\n"
    | none => ""
  let offers := if n.id = e.run.node then e.offers else []
  tag ++ speech n.speaker (e.interpolate n.textOrEmpty)
    ++ String.join (offers.map (offerLine e)) ++ "\n"

/-- The variables and the flags of a store, and the choices made so far. -/
def storeText (s : Store) : String :=
  let row (kind : String) (entry : String × Value) : List String :=
    [entry.1, entry.2.render, kind]
  let table : Table := {
    header := ["Name", "Value", "Kind"]
    rows := s.values.entries.map (row "variable") ++ s.flags.entries.map (row "flag") }
  let made := String.intercalate ", " s.choicesMade
  let choices := if s.choicesMade.isEmpty then "" else s!"  choices: {made}\n"
  table.text ++ choices ++ "\n"

end BranchingStory.Terminal
