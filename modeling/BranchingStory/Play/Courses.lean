import BranchingStory.Play.Commands
/-!
# The course of a command

A `Call` is one of the commands. `Engine.course` tells what happens while it is carried out, moment
by moment: a node is entered, or a timer fires. Engines count images round, from the largest serial
number on to zero. Nothing goes on from a call in which that happens: `Engine.attempt` is what comes
of a call when there is no number after the largest one.
-/

namespace BranchingStory

/-- What can be asked of an engine. -/
inductive Call where
  | start (stage chapter : Option String)
  | restart
  | startChapter (stage chapter : String)
  | advance
  | choose (index : UInt64)
  | poll
deriving DecidableEq, Repr

/-- What is answered to a call that is not refused: nothing, or how many timers fired. -/
inductive Answer where
  | done
  | fired (count : Nat)
deriving DecidableEq, Repr

/-- A moment of a command: the engine, the node that was just entered, if one was, and the node that
is to be entered next. -/
structure Moment where
  engine : Engine
  entered : Option Node := none
  onward : Option String := none

/-- The moments of a command. -/
structure Course where
  opening : Moment
  later : List Moment := []

/-- The engine after some moments. -/
def Engine.through (e : Engine) (moments : List Moment) : Engine :=
  moments.foldl (fun _ m => m.engine) e

namespace Course

/-- All moments, from the first to the last. -/
def moments (c : Course) : List Moment := c.opening :: c.later

/-- The engine at the last moment. -/
def final (c : Course) : Engine := c.opening.engine.through c.later

/-- The nodes that were entered, in their order. -/
def entered (c : Course) : List Node := c.later.filterMap (·.entered)

/-- What a call answers whose course this is. Of the moments of a poll those at which no node was
entered are those at which a timer fired. -/
def answer (c : Course) : Call → Answer
  | .poll => .fired (c.later.filter (·.entered.isNone)).length
  | _ => .done

end Course

namespace Engine

/-! ## Calls -/

/-- What comes of a call. -/
def call (e : Engine) (now : Int64) : Call → Except Refusal (Answer × Engine)
  | .start stage chapter => (e.start now stage chapter).map fun o => (.done, o.1)
  | .restart => (e.restart now).map fun o => (.done, o.1)
  | .startChapter stage chapter => (e.startChapter now stage chapter).map fun o => (.done, o.1)
  | .advance => (e.advance now).map fun o => (.done, o.1)
  | .choose index => (e.choose now index).map fun o => (.done, o.1)
  | .poll => .ok (.fired (e.poll now).fired, (e.poll now).engine)

/-- The engine after a call. A call that is refused changes nothing. -/
def after (e : Engine) (now : Int64) (c : Call) : Engine :=
  match e.call now c with
  | .ok (_, next) => next
  | .error _ => e

/-! ## Courses -/

/-- The engine at another node. -/
def atNode (e : Engine) (id : String) : Engine := { e with run.node := id }

/-- The moments of a walk. -/
def walked (now : Int64) (chapter : Chapter) : (steps : Nat) → Engine → String → List Moment
  | steps, e, id =>
    match chapter.node? id with
    | none => []
    | some n =>
      match (e.atNode id).enter now n, steps with
      | (after, some next), steps + 1 =>
        ⟨after, some n, some next⟩ :: walked now chapter steps after next
      -- the walk ends here, or it has taken all its steps
      | (after, next), _ => [⟨after, some n, next⟩]

/-- The moments of going to a node of the current chapter. -/
def wentTo (e : Engine) (now : Int64) (id : String) : List Moment :=
  match e.currentChapter? with
  | some chapter => walked now chapter e.settings.maxAutoSteps e id
  | none => []

/-- The moments after which a timer has done what it was for. -/
def fired (e : Engine) (now : Int64) : Deferred → List Moment
  | .removeImage serial => [⟨{ e with run.scene := e.run.scene.remove serial }, none, none⟩]
  | .showImage node d => [⟨e.showImage node d, none, none⟩]
  | .moveOn next => ⟨e, none, some next⟩ :: e.wentTo now next

/-- The moments of letting at most so many timers fire. -/
def polled (now : Int64) : (most : Nat) → Engine → List Moment
  | 0, _ => []
  | most + 1, e =>
    match e.timers.popDue now with
    | none => []
    | some (action, timers) =>
      let moments := { e with timers }.fired now action
      moments ++ polled now most ({ e with timers }.through moments)

/-- A course without anything after its first moment. -/
def still (e : Engine) : Course := ⟨⟨e, none, none⟩, []⟩

/-- The course of going to a node, if there is one to go to. -/
def going (e : Engine) (now : Int64) (id : Option String) : Course :=
  ⟨⟨e, none, id⟩, id.elim [] (e.wentTo now)⟩

/-- The course of a chapter's beginning. -/
def beginning (e : Engine) (now : Int64) (chapter : Chapter) : Course :=
  match chapter.entry? with
  | some entry =>
    ⟨⟨e.atNode entry, none, some entry⟩,
      walked now chapter e.settings.maxAutoSteps (e.atNode entry) entry⟩
  | none => e.still

/-- The engine that starts a story anew, before it enters a node. -/
def anew (e : Engine) (now : Int64) (stage : Stage) (chapter : Chapter) : Engine :=
  let run : Playthrough := {
    stage := stage.id
    chapter := chapter.id
    store := .initial e.story.declared chapter.declared
    startedAt := now
    status := .playing }
  { e with run, timers := e.timers.nextEpoch }

/-- The engine that goes on into another chapter, before it enters a node. -/
def movedInto (e : Engine) (stage : Stage) (chapter : Chapter) : Engine :=
  let clear := e.ending?.all (·.clearVisuals)
  let run := { e.run with
    node := ""
    stage := stage.id
    chapter := chapter.id
    store := e.run.store.seed chapter.declared
    scene := if clear then {} else e.run.scene.dropExiting
    status := .playing }
  { e with run, timers := e.timers.nextEpoch }

/-- The course of starting at a chapter of the story, if there is one. -/
def starting (e : Engine) (now : Int64) (stage chapter : Option String) : Except Refusal Course :=
  match e.story.resolve stage chapter with
  | .error what => .error (.missing what)
  | .ok (stage, chapter) => .ok ((e.anew now stage chapter).beginning now chapter)

/-- The course of starting the same chapter anew. -/
def restarting (e : Engine) (now : Int64) : Except Refusal Course :=
  if e.run.status = .idle then .error .notStarted
  else e.starting now (some e.run.stage) (some e.run.chapter)

/-- The course of going on into another chapter. -/
def movingOn (e : Engine) (now : Int64) (stage chapter : String) : Except Refusal Course :=
  if e.run.status = .idle then .error .notStarted
  else
    match e.story.resolve (some stage) (some chapter) with
    | .error what => .error (.missing what)
    | .ok (stage, chapter) => .ok ((e.movedInto stage chapter).beginning now chapter)

/-- The course of going on from the current node. -/
def advancing (e : Engine) (now : Int64) : Except Refusal Course :=
  match e.hindrance? with
  | some refusal => .error refusal
  | none =>
    match e.currentNode? with
    | none => .ok e.still
    | some n =>
      match n.type with
      | .choice => .error (.awaitingChoice n.id)
      | .chapterEnd => .ok (e.finishChapter n).1.still
      | _ => .ok (e.going now n.next?)

/-- The course of making a choice. -/
def choosing (e : Engine) (now : Int64) (index : UInt64) : Except Refusal Course :=
  match e.hindrance? with
  | some refusal => .error refusal
  | none =>
    match e.currentNode? with
    | none => .error .notAtChoice
    | some n =>
      match n.kind with
      | .choice choices =>
        match choices[index.toNat]? with
        | none => .error (.choiceOutOfRange index choices.length)
        | some c =>
          if e.unlocked c then .ok ((e.recordChoice now n index c).going now c.target?)
          else .error (.choiceLocked c.id)
      | _ => .error .notAtChoice

/-- The course of a call. -/
def course (e : Engine) (now : Int64) : Call → Except Refusal Course
  | .start stage chapter => e.starting now stage chapter
  | .restart => e.restarting now
  | .startChapter stage chapter => e.movingOn now stage chapter
  | .advance => e.advancing now
  | .choose index => e.choosing now index
  | .poll => .ok ⟨⟨e, none, none⟩, polled now e.pollLimit e⟩

/-! ## Serial numbers that run out -/

/-- Whether at one of these moments the last serial number is smaller than before. -/
def fallsBack (counter : UInt64) : List Moment → Bool
  | [] => false
  | m :: rest => m.engine.imageCounter < counter || fallsBack m.engine.imageCounter rest

/-- Whether serial numbers run out while a call is carried out. -/
def runsOut (e : Engine) (now : Int64) (c : Call) : Bool :=
  match e.course now c with
  | .ok course => fallsBack course.opening.engine.imageCounter course.later
  | .error _ => false

/-- What is answered to a call, and the engine after it, unless serial numbers run out. -/
def attempt (e : Engine) (now : Int64) (c : Call) :
    Except Overflow (Except Refusal Answer × Engine) :=
  if e.runsOut now c then .error .addition else .ok ((e.call now c).map (·.1), e.after now c)

end Engine

end BranchingStory
