import BranchingStory.Story.Picture
/-!
# The scene

The images on stage, in the order in which they came. A slot shows at most one image that is not on
its way out; images that are stay until the timer for their exit has run.
-/

namespace BranchingStory

/-- An image on stage. Every one has a serial number of its own, and knows the node that brought
it. -/
structure StageImage where
  node : String
  serial : UInt64
  picture : Picture
  exiting : Bool := false
  exitEffect : Option ExitEffect := none
  exitDuration : Option UInt64 := none
deriving DecidableEq, Repr, Inhabited

namespace StageImage

/-- The image that a directive of a node brings. -/
def ofDirective (node : String) (serial : UInt64) (d : ImageDirective) : StageImage :=
  { node, serial, picture := d.picture }

/-- The slot of an image. -/
def slot (i : StageImage) : Slot := i.picture.slot

/-- The image on its way out. -/
def leaving (i : StageImage) (effect : ExitEffect) (duration : Option UInt64) : StageImage :=
  { i with exiting := true, exitEffect := some effect, exitDuration := duration }

end StageImage

/-- The images on stage. -/
structure Scene where
  images : List StageImage := []
deriving DecidableEq, Repr, Inhabited

namespace Scene

/-- The scene with only the images that satisfy a condition. -/
def keep (s : Scene) (p : StageImage → Bool) : Scene := ⟨s.images.filter p⟩

/-- The image that a slot shows, not counting those on their way out. -/
def resident? (s : Scene) (slot : Slot) : Option StageImage :=
  s.images.find? fun i => i.slot = slot ∧ !i.exiting

/-- All images in a slot. -/
def inSlot (s : Scene) (slot : Slot) : List StageImage := s.images.filter (·.slot = slot)

/-- The scene without anything in a slot. -/
def clearSlot (s : Scene) (slot : Slot) : Scene := s.keep (·.slot ≠ slot)

/-- The images after the first one with a serial number has become another one. -/
def replaceFirst (serial : UInt64) (f : StageImage → StageImage) : List StageImage → List StageImage
  | [] => []
  | i :: rest => if i.serial = serial then f i :: rest else i :: replaceFirst serial f rest

/-- The scene after an image has begun to leave. -/
def beginExit (s : Scene) (serial : UInt64) (effect : ExitEffect) (duration : Option UInt64) :
    Scene :=
  ⟨replaceFirst serial (·.leaving effect duration) s.images⟩

/-- Whether there is an image with a serial number. -/
def has (s : Scene) (serial : UInt64) : Bool := s.images.any (·.serial = serial)

/-- The scene without an image. -/
def remove (s : Scene) (serial : UInt64) : Scene := s.keep (·.serial ≠ serial)

/-- The scene with an image placed in its slot, where it takes the place of the one before it.
Images on their way out stay. -/
def place (s : Scene) (image : StageImage) : Scene :=
  ⟨(s.keep fun i => i.exiting || i.slot ≠ image.slot).images ++ [image]⟩

/-- The scene without the images on their way out. -/
def dropExiting (s : Scene) : Scene := s.keep (!·.exiting)

/-- The largest serial number. -/
def maxSerial? (s : Scene) : Option UInt64 := (s.images.map (·.serial)).max?

end Scene

end BranchingStory
