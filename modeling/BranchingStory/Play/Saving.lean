import BranchingStory.Document.Playthrough
import BranchingStory.Play.Commands
/-!
# Saving and loading

Timers are not saved. Images still to come or to go are saved as if they already had, so that the
scene of a loaded playthrough is the one that was about to be.
-/

namespace BranchingStory

namespace Scene

/-- The scene after a timer for an image, and the last serial number in use, unless there is none
left for an image that comes. Timers that are not for images leave it alone. -/
def afterTimer : Scene × UInt64 → Deferred → Except Overflow (Scene × UInt64)
  | (s, counter), .removeImage serial => .ok (s.remove serial, counter)
  | (s, counter), .showImage node d => do
    let serial ← nextSerial counter
    return (s.place (.ofDirective node serial d), serial)
  | (s, counter), .moveOn _ => .ok (s, counter)

end Scene

namespace Engine

/-- The scene after all timers for images, unless serial numbers run out. -/
def settledScene (e : Engine) : Except Overflow Scene := do
  let counter := max e.imageCounter (e.run.scene.maxSerial?.getD 0)
  let (scene, _) ← e.timers.pending.foldlM Scene.afterTimer (e.run.scene, counter)
  return scene.dropExiting

/-- What a save holds, unless the time played is out of range or serial numbers run out. -/
def snapshot (e : Engine) (now : Int64) : Except Overflow Playthrough := do
  let playTime ← e.run.totalPlayTime now
  let scene ← e.settledScene
  return { e.run with scene, playTime }

/-- The text of a save, unless there is an overflow. -/
def save (e : Engine) (now : Int64) : Except Overflow String :=
  return (← e.snapshot now).text

/-- A playthrough taken up again. One that does not say whether it is being played is, if it is at a
node. -/
def resumed (p : Playthrough) (now : Int64) : Playthrough :=
  { p with
    startedAt := now
    scene := p.scene.dropExiting
    status := if p.status = .idle ∧ p.node ≠ "" then .playing else p.status }

/-- The engine with a playthrough in place of its own. -/
def resume (e : Engine) (now : Int64) (p : Playthrough) : Engine :=
  let run := resumed p now
  { e with
    run
    timers := e.timers.nextEpoch
    imageCounter := max e.imageCounter (run.scene.maxSerial?.getD 0) }

/-- Loads a save. Text that is not one is refused, and nothing changes. -/
def load (e : Engine) (now : Int64) (text : String) : Json.Reading (Engine × List Notice) := do
  let e := e.resume now (← Playthrough.parse text)
  return (e, e.notices true)

end Engine

end BranchingStory
