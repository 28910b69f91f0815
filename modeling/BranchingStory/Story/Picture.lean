/-!
# Pictures

A `Picture` is shown in a `Slot`. An `ImageDirective` is what an image node asks for: a picture for
a slot, or an empty one, and how the picture in the slot gives way to it.
-/

namespace BranchingStory

/-- Where a picture stands in the width of the screen. -/
inductive Alignment where
  | left
  | center
  | right
  | custom
deriving DecidableEq, Repr

namespace Alignment

instance : Inhabited Alignment := ⟨center⟩

/-- All alignments. -/
def all : List Alignment := [left, center, right, custom]

/-- The word for an alignment. -/
def word : Alignment → String
  | left => "left"
  | center => "center"
  | right => "right"
  | custom => "custom"

end Alignment

/-- How a picture comes in. `still` is no effect at all. -/
inductive EntranceEffect where
  | still
  | fadeIn
  | shake
  | slideLeft
  | slideRight
  | slideUp
  | slideDown
  | zoomIn
  | zoomOut
  | bounce
  | flash
  | pulse
deriving DecidableEq, Repr, Inhabited

namespace EntranceEffect

/-- All entrance effects. -/
def all : List EntranceEffect :=
  [still, fadeIn, shake, slideLeft, slideRight, slideUp, slideDown, zoomIn, zoomOut, bounce, flash,
    pulse]

/-- The word for an entrance effect. -/
def word : EntranceEffect → String
  | still => "none"
  | fadeIn => "fadeIn"
  | shake => "shake"
  | slideLeft => "slideLeft"
  | slideRight => "slideRight"
  | slideUp => "slideUp"
  | slideDown => "slideDown"
  | zoomIn => "zoomIn"
  | zoomOut => "zoomOut"
  | bounce => "bounce"
  | flash => "flash"
  | pulse => "pulse"

end EntranceEffect

/-- How a picture goes. `still` is no effect at all. -/
inductive ExitEffect where
  | still
  | fadeOut
  | slideOutLeft
  | slideOutRight
  | slideOutUp
  | slideOutDown
  | zoomOut
  | shrink
deriving DecidableEq, Repr, Inhabited

namespace ExitEffect

/-- All exit effects. -/
def all : List ExitEffect :=
  [still, fadeOut, slideOutLeft, slideOutRight, slideOutUp, slideOutDown, zoomOut, shrink]

/-- The word for an exit effect. -/
def word : ExitEffect → String
  | still => "none"
  | fadeOut => "fadeOut"
  | slideOutLeft => "slideOutLeft"
  | slideOutRight => "slideOutRight"
  | slideOutUp => "slideOutUp"
  | slideOutDown => "slideOutDown"
  | zoomOut => "zoomOut"
  | shrink => "shrink"

end ExitEffect

/-- Whether a picture waits for the one before it to be gone. -/
inductive Timing where
  | sequential
  | crossfade
deriving DecidableEq, Repr, Inhabited

namespace Timing

/-- All timings. -/
def all : List Timing := [sequential, crossfade]

/-- The word for a timing. -/
def word : Timing → String
  | sequential => "sequential"
  | crossfade => "crossfade"

end Timing

/-- A place for one picture: a layer, and a number within it. -/
structure Slot where
  layer : String := ""
  order : Int32 := 0
deriving DecidableEq, Repr, Inhabited

/-- A picture in its slot. -/
structure Picture where
  path : String := ""
  slot : Slot := {}
  alignment : Alignment := .center
  x : Option Float := none
  y : Option Float := none
  flip : Option Bool := none
  fit : Option String := none
  effect : Option EntranceEffect := none
  effects : List EntranceEffect := []
  duration : Option UInt64 := none
deriving DecidableEq, Repr, Inhabited

/-- Whether a picture comes in with an effect. -/
def Picture.hasEntrance (p : Picture) : Bool :=
  !p.effects.isEmpty || p.effect.any (· ≠ .still)

/-- What an image node asks for. -/
structure ImageDirective where
  picture : Picture := {}
  exitEffect : Option ExitEffect := none
  exitDuration : Option UInt64 := none
  timing : Timing := .sequential
deriving DecidableEq, Repr, Inhabited

namespace ImageDirective

/-- A directive for a picture without any effect. -/
def plain (path : String) (slot : Slot) : ImageDirective := { picture := { path, slot } }

/-- Whether the directive empties its slot. -/
def isRemoval (d : ImageDirective) : Bool := d.picture.path == ""

/-- The effect with which the picture in the slot goes, if there is one. -/
def activeExit? (d : ImageDirective) : Option ExitEffect := d.exitEffect.filter (· ≠ .still)

end ImageDirective

end BranchingStory
