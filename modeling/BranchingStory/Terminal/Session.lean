import BranchingStory.Play.Courses
import BranchingStory.Play.Saving
import BranchingStory.Terminal.Command
import BranchingStory.Terminal.Screen
/-!
# Playing at a terminal

A `Turn` is what happens from one prompt to the next: text is shown, and the time of timers is
waited for. Files and the clock are outside. A turn that needs a file stops there and goes on with
what came of it, and the clock is read once, at the start of a turn.
-/

namespace BranchingStory.Terminal

/-- What a turn does on the outside. -/
inductive Output where
  | text (text : String)
  | waitUntil (time : Int64)
deriving DecidableEq, Repr

/-- A story being played at a terminal: the engine, the nodes and the end of a chapter that the
player has not seen yet, and the images that were shown last. -/
structure Session where
  engine : Engine
  nodes : List Node := []
  ending : Option Ending := none
  scene : List String := []
deriving DecidableEq, Repr, Inhabited

/-- The session after it has heard of an event. -/
def Session.hear (s : Session) : Event → Session
  | .nodeChanged (some n) => { s with nodes := s.nodes ++ [n] }
  | .chapterEnded ending => { s with ending := some ending }
  | .nodeChanged none | .stateChanged _ | .storyEnded => s

/-- A turn so far: the session, the time, what it did on the outside, and the overflow, if there was
one. -/
structure Turn where
  session : Session
  now : Int64
  output : List Output := []
  overflow : Option Overflow := none
deriving DecidableEq, Repr, Inhabited

namespace Turn

/-- The turn after some text was shown. -/
def say (t : Turn) (text : String) : Turn := { t with output := t.output ++ [.text text] }

/-- The turn after a remark, which has an empty line after it. -/
def remark (t : Turn) (text : String) : Turn := t.say s!"  {text}\n\n"

/-- The turn with another engine, after its notices were heard. -/
def go (t : Turn) (engine : Engine) (heard : List Notice) : Turn :=
  { t with session := heard.foldl (fun s n => s.hear n.event) { t.session with engine } }

/-- The turn before a call of the engine. If there is an overflow in it, what the call does is of no
account any more. -/
def ask (t : Turn) (c : Call) : Turn :=
  match t.session.engine.attempt t.now c with
  | .ok _ => t
  | .error o => { t with overflow := t.overflow.or (some o) }

/-- The turn after a command of the engine. A refusal is shown. -/
def report (t : Turn) : Outcome → Turn
  | .ok (engine, heard) => t.go engine heard
  | .error refusal => t.remark refusal.message

/-! ## Settling and showing -/

/-- The turn after a time was waited for, if it has not come yet. -/
def waitFor (t : Turn) (time : Int64) : Turn :=
  if t.now < time then { t with now := time, output := t.output ++ [.waitUntil time] } else t

/-- Waits for timers and lets them fire, at most so many times. -/
def settleWithin : (most : Nat) → Turn → Turn
  | 0, t => t
  | most + 1, t =>
    match t.session.engine.timers.nextDue? with
    | none => t
    | some due =>
      let t := (t.waitFor due).ask .poll
      let polled := t.session.engine.poll t.now
      settleWithin most (t.go polled.engine polled.notices)

/-- Waits until there are no timers left. A story can make new ones without end, and then so does
the waiting: nobody sees the end of so many waits. -/
def settle (t : Turn) : Turn := settleWithin UInt64.size t

/-- Shows the scene, if it has changed, and the nodes that were entered. -/
def render (t : Turn) : Turn :=
  let images := shownImages t.session.engine.run.scene
  let scene := if images = t.session.scene then "" else sceneLine images
  let nodes := String.join (t.session.nodes.map (nodeText t.session.engine))
  { t with session := { t.session with nodes := [], scene := images } }.say (scene ++ nodes)

end Turn

/-! ## Turns -/

/-- How a turn ends: with a prompt, or for good. -/
inductive Verdict where
  | prompt
  | finished
  | failed (message : String)
  | crashed (overflow : Overflow)
deriving DecidableEq, Repr

/-- What comes of a command. It may need a file to be written or read first. -/
inductive Reaction where
  | done (turn : Turn)
  | write (file text : String) (next : Except String Unit → Turn)
  | read (file : String) (next : Except String String → Turn)
  | quit

namespace Turn

/-- The prompt. -/
def prompt (t : Turn) : Turn := t.say "> "

/-- Waits until there are no timers left, and goes on from there. After an overflow there is nothing
to go on with, and only what was shown before it stays. -/
def settleThen (t : Turn) (next : Turn → Turn × Verdict) : Turn × Verdict :=
  let settled := t.settle
  match settled.overflow with
  | none => next settled.render
  | some o => (t, .crashed o)

/-- Goes on after the end of a chapter: into the chapter that follows it, or out of the story. -/
def leaveChapter (t : Turn) (ending : Ending) : Turn × Verdict :=
  let t := { t with session.ending := none }
  match ending.target? with
  | none => (t.say "  The End.\n", .finished)
  | some (stage, chapter) =>
    let t := (t.remark s!"~ {chapter} ~").ask (.startChapter stage chapter)
    match t.session.engine.startChapter t.now stage chapter with
    | .ok (engine, heard) => (t.go engine heard).settleThen fun t => (t.prompt, .prompt)
    | .error refusal => (t, .failed s!"cannot continue story: {refusal.message}")

/-- The end of a turn. -/
def conclude (t : Turn) : Turn × Verdict :=
  t.settleThen fun t =>
    match t.session.ending with
    | none => (t.prompt, .prompt)
    | some ending => t.leaveChapter ending

/-- The turn after a save was written, or not. -/
def saved (t : Turn) (file : String) : Except String Unit → Turn
  | .ok _ => t.remark s!"saved to {file}"
  | .error e => t.remark s!"save failed: {e}"

/-- The turn after a save was read, or not. -/
def loaded (t : Turn) (file : String) : Except String String → Turn
  | .error e => t.remark s!"load failed: {e}"
  | .ok text =>
    match t.session.engine.load t.now text with
    | .ok (engine, heard) => (t.go engine heard).remark s!"loaded {file}"
    | .error e => t.remark s!"load failed: malformed save data: {e.message}"

/-- Does what a command asks for. -/
def obey (t : Turn) : Command → Reaction
  | .quit => .quit
  | .help => .done (t.say (helpText ++ "\n"))
  | .store => .done (t.say (storeText t.session.engine.run.store))
  | .log => .done (t.say t.session.engine.run.backlog.transcript)
  | .restart => .done ((t.ask .restart).report (t.session.engine.restart t.now))
  | .advance => .done ((t.ask .advance).report (t.session.engine.advance t.now))
  | .choose index => .done ((t.ask (.choose index)).report (t.session.engine.choose t.now index))
  | .save file =>
    match t.session.engine.save t.now with
    | .ok text => .write file text (t.saved file)
    | .error o => .done { t with overflow := some o }
  | .load file => .read file (t.loaded file)
  | .unknown text => .done (t.remark s!"unknown command: {text}")

end Turn

/-- The first turn of a story: it is started, and the player is welcomed. -/
def firstTurn (engine : Engine) (now : Int64) (stage chapter : Option String) :
    Except String (Turn × Verdict) :=
  match engine.start now stage chapter with
  | .error refusal => .error s!"cannot start story: {refusal.message}"
  | .ok (started, heard) =>
    let t := Turn.ask { session := { engine }, now } (.start stage chapter)
    let t := t.go started heard
    let t := t.say s!"  Playing {engine.story.name}\n"
    let t := t.remark "Press Enter to continue, a number to choose, 'help' for commands."
    .ok t.conclude

end BranchingStory.Terminal
