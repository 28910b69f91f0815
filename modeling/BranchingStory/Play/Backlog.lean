import BranchingStory.Story.Node
/-!
# The backlog

What the player has seen, the latest last. Its length has a limit, beyond which the oldest entries
are dropped.
-/

namespace BranchingStory

/-- An image as the backlog remembers it. -/
structure SeenImage where
  path : String
  layer : String
  isRemoval : Bool := false
  effect : Option EntranceEffect := none
  effects : List EntranceEffect := []
  duration : Option UInt64 := none
deriving DecidableEq, Repr, Inhabited

/-- What the backlog remembers of a directive. -/
def SeenImage.ofDirective (d : ImageDirective) : SeenImage where
  path := d.picture.path
  layer := d.picture.slot.layer
  isRemoval := d.isRemoval
  effect := d.picture.effect
  effects := d.picture.effects
  duration := d.picture.duration

/-- An entry of the backlog. -/
structure Beat where
  node : String
  type : NodeType
  content : String := ""
  speaker : Option String := none
  time : Int64
  choice : Option String := none
  image : Option SeenImage := none
deriving DecidableEq, Repr, Inhabited

/-- An entry as a line of text. An empty text is no line. -/
def Beat.line (b : Beat) : String :=
  match b.choice, b.image with
  | some choice, _ => s!"> {choice}"
  | none, some image =>
    if image.isRemoval then s!"[image removed: {image.layer}]"
    else s!"[image: {image.path} on {image.layer}]"
  | none, none =>
    match given b.speaker with
    | some speaker => s!"{speaker}: {b.content}"
    | none => b.content

/-- What the player has seen. -/
structure Backlog where
  beats : List Beat := []
deriving DecidableEq, Repr, Inhabited

namespace Backlog

/-- The backlog with one more entry. At least that entry is kept, whatever the limit. -/
def push (b : Backlog) (beat : Beat) (limit : Nat) : Backlog :=
  let beats := b.beats ++ [beat]
  ⟨beats.drop (beats.length - max limit 1)⟩

/-- Whether an entry is for the same node, of the same type, as the one before it. -/
def repeats (b : Backlog) (beat : Beat) : Bool :=
  b.beats.getLast?.any fun last => last.node = beat.node ∧ last.type = beat.type

/-- The backlog with one more entry, unless it repeats the last one. -/
def pushUnique (b : Backlog) (beat : Beat) (limit : Nat) : Backlog :=
  if b.repeats beat then b else b.push beat limit

/-- The backlog as text, with a line for every entry that has one. -/
def transcript (b : Backlog) : String :=
  String.join ((b.beats.map Beat.line).filter (· ≠ "") |>.map (· ++ "\n"))

end Backlog

end BranchingStory
