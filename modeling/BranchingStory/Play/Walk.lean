import BranchingStory.Play.Engine
import BranchingStory.Play.Execution
/-!
# Entering nodes

A node that asks nothing of the player leads straight on to another one. `Engine.walk` follows such
nodes until one of them waits for the player, a timer takes over, a node does not exist, or there
have been too many of them.
-/

namespace BranchingStory

/-- The time after a duration. It never goes beyond the largest time there is. -/
def dueAfter (now : Int64) (duration : UInt64) : Int64 :=
  let farthest : Int := Int64.maxValue.toInt
  let step : Int := duration.toNat
  Int64.ofInt (min (now.toInt + min step farthest) farthest)

namespace Engine

/-! ## Recording -/

/-- The engine with another entry in its backlog, unless it repeats the last one. -/
def record (e : Engine) (b : Beat) : Engine :=
  { e with run.backlog := e.run.backlog.pushUnique b e.settings.historyLimit }

/-- The entry for a node. -/
def nodeBeat (n : Node) (now : Int64) : Beat :=
  { node := n.id, type := n.type, content := n.textOrEmpty, speaker := n.speaker, time := now }

/-- The entry for the directive of an image node. -/
def imageBeat (n : Node) (d : ImageDirective) (now : Int64) : Beat :=
  let content := if d.isRemoval then s!"[image removed: {d.picture.slot.layer}]" else ""
  { node := n.id, type := .image, content, time := now, image := some (.ofDirective d) }

/-! ## Images -/

/-- The engine with the image of a directive on stage, under a serial number of its own. After the
largest number there is none, and the zero that stands here for it makes `Engine.attempt` fail. -/
def showImage (e : Engine) (node : String) (d : ImageDirective) : Engine :=
  let serial := e.imageCounter + 1
  { e with
    imageCounter := serial
    run.scene := e.run.scene.place (.ofDirective node serial d) }

/-- The engine with another timer. -/
def schedule (e : Engine) (due : Int64) (action : Deferred) : Engine :=
  { e with timers := e.timers.schedule due action }

/-- How long the image before that of a directive takes to leave. -/
def exitDuration (e : Engine) (d : ImageDirective) : UInt64 :=
  (d.exitDuration.filter (· > 0)).getD e.settings.exitDuration

/-- Lets an image leave, and the image of the directive follow it or come at once. -/
def exchange (e : Engine) (now : Int64) (node : String) (d : ImageDirective) (serial : UInt64)
    (effect : ExitEffect) : Engine :=
  let due := dueAfter now (e.exitDuration d)
  let e := { e with run.scene := e.run.scene.beginExit serial effect d.exitDuration }
  let e := e.schedule due (.removeImage serial)
  match d.timing with
  | .sequential => e.schedule due (.showImage node d)
  | .crossfade => e.showImage node d

/-- Brings the image of a directive into its slot. The image that is there goes first, with an
effect if the directive has one for it. -/
def bringImage (e : Engine) (now : Int64) (node : String) (d : ImageDirective) : Engine :=
  match e.run.scene.resident? d.picture.slot with
  | none => e.showImage node d
  | some resident =>
    match d.activeExit? with
    | some effect => e.exchange now node d resident.serial effect
    | none =>
      { e with run.scene := e.run.scene.remove resident.serial }.showImage node d

/-- Does what a directive asks for. It puts an end to whatever was still to come into its slot. -/
def direct (e : Engine) (now : Int64) (node : String) (d : ImageDirective) : Engine :=
  let slot := d.picture.slot
  let e := { e with timers := e.timers.cancel (·.fills slot) }
  if d.isRemoval then { e with run.scene := e.run.scene.clearSlot slot }
  else e.bringImage now node d

/-- Enters an image node. An entrance effect with a duration holds the story back. -/
def enterImage (e : Engine) (now : Int64) (n : Node) (d : ImageDirective) :
    Engine × Option String :=
  let e := (e.direct now n.id d).record (imageBeat n d now)
  let duration := d.picture.duration.getD 0
  match n.next? with
  | some next =>
    if d.picture.hasEntrance ∧ duration > 0 then
      (e.schedule (dueAfter now duration) (.moveOn next), none)
    else (e, some next)
  | none => (e, none)

/-! ## Nodes -/

/-- The node after a condition node: that of the first branch whose condition holds, even if it
leads nowhere, or the one for when there is no such branch. -/
def branchTarget? (e : Engine) (branches : List Branch) (otherwise : Option String) :
    Option String :=
  match branches.find? fun b => e.holds b.condition with
  | some branch => branch.target?
  | none => given otherwise

/-- Enters a node. The answer is the node that follows at once, if there is one. -/
def enter (e : Engine) (now : Int64) (n : Node) : Engine × Option String :=
  let e := match n.onEnter with
    | some effects => { e with run.store := e.run.store.applyEffects effects }
    | none => e
  match n.kind with
  | .start =>
    match n.next? with
    | some next => (e, some next)
    | none => (e.record (nodeBeat n now), none)
  | .operations list => ({ e with run.store := e.run.store.executeAll list }, n.next?)
  | .condition branches otherwise => (e, e.branchTarget? branches otherwise)
  | .image (some d) => e.enterImage now n d
  | .image none | .script _ => (e, n.next?)
  | _ => (e.record (nodeBeat n now), none)

/-- Enters a node of a chapter and follows it for at most so many steps. A node that does not exist
is not entered. -/
def walk (now : Int64) (chapter : Chapter) : (steps : Nat) → Engine → String → Engine
  | steps, e, id =>
    match chapter.node? id with
    | none => e
    | some n =>
      match { e with run.node := id }.enter now n, steps with
      | (e, some next), steps + 1 => walk now chapter steps e next
      | (e, _), _ => e

/-- Enters a node of a chapter and follows it as far as the settings let it. -/
def walkFrom (e : Engine) (now : Int64) (chapter : Chapter) (id : String) : Engine :=
  walk now chapter e.settings.maxAutoSteps e id

/-- Begins a chapter at its entry. A chapter without nodes has none. -/
def beginChapter (e : Engine) (now : Int64) (chapter : Chapter) : Engine :=
  match chapter.entry? with
  | some entry => { e with run.node := entry }.walkFrom now chapter entry
  | none => e

end Engine

end BranchingStory
