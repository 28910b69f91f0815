import BranchingStory.Play.Walk
/-!
# Commands

What can be done with an engine: start, go on, choose, and let timers fire. A command is either
refused, and then nothing changes, or it answers with the engine after it and with what its
observers hear.
-/

namespace BranchingStory

/-- Why a command is refused. -/
inductive Refusal where
  | missing (what : Missing)
  | notStarted
  | awaitingChoice (node : String)
  | notAtChoice
  | choiceOutOfRange (index : UInt64) (count : Nat)
  | choiceLocked (choice : String)
  | transitionPending
  | chapterEnded
deriving DecidableEq, Repr, Inhabited

/-- A refusal in words. -/
def Refusal.message : Refusal → String
  | missing what => what.message
  | notStarted => "no story is running; call start first"
  | awaitingChoice node => s!"waiting for a choice at node \"{node}\""
  | notAtChoice => "current node is not a choice"
  | choiceOutOfRange index count => s!"choice {index} out of range ({count} available)"
  | choiceLocked choice => s!"choice \"{choice}\" is locked"
  | transitionPending => "a timed transition is pending"
  | chapterEnded => "the chapter has ended"

/-- What observers hear of. -/
inductive Event where
  | stateChanged (run : Playthrough)
  | nodeChanged (node : Option Node)
  | chapterEnded (ending : Ending)
  | storyEnded
deriving DecidableEq, Repr

/-- An event and the observer that hears of it. -/
structure Notice where
  observer : Nat
  event : Event
deriving DecidableEq, Repr

/-- What comes of a command. -/
abbrev Outcome := Except Refusal (Engine × List Notice)

namespace Engine

/-! ## Notices -/

/-- Every observer in turn hears of an event. -/
def tell (e : Engine) (event : Event) : List Notice := (List.range e.observers).map (⟨·, event⟩)

/-- What observers hear once a command has settled. They hear of the node when it may have
changed. -/
def notices (e : Engine) (nodeChanged : Bool) : List Notice :=
  e.tell (.stateChanged e.run)
    ++ if nodeChanged then e.tell (.nodeChanged e.currentNode?) else []

/-- The engine with what observers hear after a command that may have left a node. -/
def settledFrom (e : Engine) (previous : String) : Engine × List Notice :=
  (e, e.notices (e.run.node ≠ previous))

/-! ## Starting -/

/-- Starts the story anew, at the given chapter or at the first one. -/
def start (e : Engine) (now : Int64) (stage chapter : Option String) : Outcome :=
  match e.story.resolve stage chapter with
  | .error what => .error (.missing what)
  | .ok (stage, chapter) =>
    let run : Playthrough := {
      stage := stage.id
      chapter := chapter.id
      store := .initial e.story.declared chapter.declared
      startedAt := now
      status := .playing }
    let e := { e with run, timers := e.timers.nextEpoch }.beginChapter now chapter
    .ok (e, e.notices true)

/-- Starts the same chapter anew. -/
def restart (e : Engine) (now : Int64) : Outcome :=
  if e.run.status = .idle then .error .notStarted
  else e.start now (some e.run.stage) (some e.run.chapter)

/-- Goes on into another chapter. What the player has done so far carries over, and so do the images
if the end of the chapter before asks for it. -/
def startChapter (e : Engine) (now : Int64) (stage chapter : String) : Outcome :=
  if e.run.status = .idle then .error .notStarted
  else
    match e.story.resolve (some stage) (some chapter) with
    | .error what => .error (.missing what)
    | .ok (stage, chapter) =>
      let clear := e.ending?.all (·.clearVisuals)
      let run := { e.run with
        node := ""
        stage := stage.id
        chapter := chapter.id
        store := e.run.store.seed chapter.declared
        scene := if clear then {} else e.run.scene.dropExiting
        status := .playing }
      let e := { e with run, timers := e.timers.nextEpoch }.beginChapter now chapter
      .ok (e, e.notices true)

/-! ## Going on -/

/-- Why the story cannot go on at all, if it cannot. -/
def hindrance? (e : Engine) : Option Refusal :=
  match e.run.status with
  | .idle => some .notStarted
  | .ended => some .chapterEnded
  | .playing => if e.timers.transitionPending then some .transitionPending else none

/-- Ends the chapter at a node. -/
def finishChapter (e : Engine) (n : Node) : Engine × List Notice :=
  let ending := e.endingAt n
  let e := { e with run.status := .ended }
  (e, e.tell (.chapterEnded ending) ++ e.tell .storyEnded ++ e.notices false)

/-- Goes to a node of the current chapter. -/
def goTo (e : Engine) (now : Int64) (id : String) : Engine :=
  match e.currentChapter? with
  | some chapter => e.walkFrom now chapter id
  | none => e

/-- Goes on from the current node. At the end of a chapter that ends it, and at a node that leads
nowhere it does nothing. -/
def advance (e : Engine) (now : Int64) : Outcome :=
  match e.hindrance? with
  | some refusal => .error refusal
  | none =>
    match e.currentNode? with
    | none => .ok (e, [])
    | some n =>
      match n.type, n.next? with
      | .choice, _ => .error (.awaitingChoice n.id)
      | .chapterEnd, _ => .ok (e.finishChapter n)
      | _, none => .ok (e, [])
      | _, some next => .ok ((e.goTo now next).settledFrom n.id)

/-- The engine after a choice was made, still at its node. -/
def recordChoice (e : Engine) (now : Int64) (n : Node) (index : UInt64) (c : Choice) : Engine :=
  let store := e.run.store.recordChoice c.id
  let beat : Beat := {
    node := n.id
    type := .choice
    content := n.textOrEmpty
    time := now
    choice := some c.text }
  { e with
    run.store := c.effects.elim store store.applyEffects
    run.backlog := e.run.backlog.push beat e.settings.historyLimit
    run.lastIndex := some index
    run.lastText := some c.text }

/-- Makes one of the choices of the current node. A choice that leads nowhere is made all the same,
and can be made again. -/
def choose (e : Engine) (now : Int64) (index : UInt64) : Outcome :=
  match e.hindrance? with
  | some refusal => .error refusal
  | none =>
    match e.currentNode? with
    | none => .error .notAtChoice
    | some n =>
      match n.kind with
      | .choice choices =>
        match choices[index.toNat]? with
        | none => .error (.choiceOutOfRange index choices.length)
        | some c =>
          if e.unlocked c then
            let e := e.recordChoice now n index c
            .ok ((c.target?.elim e (e.goTo now)).settledFrom n.id)
          else .error (.choiceLocked c.id)
      | _ => .error .notAtChoice

/-! ## Timers -/

/-- Does what a timer was for. -/
def fire (e : Engine) (now : Int64) : Deferred → Engine
  | .removeImage serial => { e with run.scene := e.run.scene.remove serial }
  | .showImage node d => e.showImage node d
  | .moveOn next => e.goTo now next

/-- What comes of letting timers fire: how many did, the engine, and what observers hear. -/
structure Polled where
  fired : Nat
  engine : Engine
  notices : List Notice
deriving DecidableEq, Repr

/-- Lets at most so many timers fire, one after the other. -/
def pollWithin (now : Int64) : (most : Nat) → Engine → Polled
  | 0, e => ⟨0, e, []⟩
  | most + 1, e =>
    match e.timers.popDue now with
    | none => ⟨0, e, []⟩
    | some (action, timers) =>
      let (next, heard) := ({ e with timers }.fire now action).settledFrom e.run.node
      let rest := pollWithin now most next
      { rest with fired := rest.fired + 1, notices := heard ++ rest.notices }

/-- More timers than can fire at one time. A timer that fires schedules others that are due at once
only by walking, at most two with every step, and these do not walk themselves. Only at the end of
time is every timer due at once; then there is no end to it but this. -/
def pollLimit (e : Engine) : Nat :=
  UInt64.size + e.timers.timers.length * (2 * (e.settings.maxAutoSteps + 1) + 1)

/-- Lets all timers fire that are due. -/
def poll (e : Engine) (now : Int64) : Polled := pollWithin now e.pollLimit e

end Engine

end BranchingStory
