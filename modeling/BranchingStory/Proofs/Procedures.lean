import BranchingStory.Proofs.Runs
/-!
# What is asked of an engine, step by step

The commands are functions from an engine to the one after it. Here each of them is carried out in
steps, on an engine that changes as it goes along and with observers that hear of every event when
it happens. A step that fails takes nothing back. Even so, the engine and the observers are left
alone by whatever fails in the end, for nothing has been done by then (`perform_eq`).
-/

namespace BranchingStory

/-! ## Requests -/

/-- What can be asked for: a call, or to take up a playthrough that was saved. -/
inductive Request where
  | call (c : Call)
  | load (text : String)
deriving DecidableEq, Repr

/-- Why what was asked for is not done. -/
inductive Failure where
  | refused (refusal : Refusal)
  | malformed (error : Json.DocumentError)
deriving DecidableEq, Repr

/-- What comes of a request: an answer, the engine after it, and what its observers hear. -/
abbrev Response := Except Failure (Answer × Engine × List Notice)

/-- What comes of a command that has nothing to answer. -/
def Outcome.response : Outcome → Response
  | .ok (e, news) => .ok (.done, e, news)
  | .error refusal => .error (.refused refusal)

/-- What comes of a request. -/
def Engine.respond (e : Engine) (now : Int64) : Request → Response
  | .call (.start stage chapter) => Outcome.response (e.start now stage chapter)
  | .call .restart => Outcome.response (e.restart now)
  | .call (.startChapter stage chapter) => Outcome.response (e.startChapter now stage chapter)
  | .call .advance => Outcome.response (e.advance now)
  | .call (.choose index) => Outcome.response (e.choose now index)
  | .call .poll => .ok (.fired (e.poll now).fired, (e.poll now).engine, (e.poll now).notices)
  | .load text =>
    match e.load now text with
    | .ok (e, news) => .ok (.done, e, news)
    | .error m => .error (.malformed m)

/-! ## Procedures -/

/-- An engine at work, and what its observers have heard. -/
structure Performance where
  engine : Engine
  heard : List Notice := []
deriving DecidableEq, Repr

/-- Steps that change an engine and tell its observers. Where one of them fails, what was done
before it stays done. -/
abbrev Procedure := EStateM Failure Performance

namespace Procedure

/-- The engine as it is now. -/
def engine : Procedure Engine := do return (← get).engine

/-- Changes the engine. -/
def change (f : Engine → Engine) : Procedure Unit :=
  modify fun p => { p with engine := f p.engine }

/-- Tells every observer of an event. -/
def tell (event : Engine → Event) : Procedure Unit :=
  modify fun p => { p with heard := p.heard ++ p.engine.tell (event p.engine) }

/-- Fails, for the command is refused. -/
def refuse {α : Type} (refusal : Refusal) : Procedure α := throw (.refused refusal)

/-- Tells the observers of the state, and of the node when it may have changed. -/
def notify (nodeChanged : Bool) : Procedure Unit := do
  tell fun e => .stateChanged e.run
  if nodeChanged then tell fun e => .nodeChanged e.currentNode?

/-- Tells the observers of the state, and of the node if it is not the one before. -/
def notifyAfter (previous : String) : Procedure Unit := do
  notify ((← engine).run.node ≠ previous)

/-- The stage and the chapter with the given ids, if there are any. -/
def resolve (stage chapter : Option String) : Procedure (Stage × Chapter) := do
  match (← engine).story.resolve stage chapter with
  | .ok found => return found
  | .error what => refuse (.missing what)

/-- Fails where the story cannot go on. -/
def ensurePlaying : Procedure Unit := do
  match (← engine).hindrance? with
  | some refusal => refuse refusal
  | none => return

/-- Makes all timers void. -/
def nextEpoch : Procedure Unit := change fun e => { e with timers := e.timers.nextEpoch }

/-! ### Commands -/

/-- Starts the story anew. -/
def start (now : Int64) (stage chapter : Option String) : Procedure Answer := do
  let (stage, chapter) ← resolve stage chapter
  nextEpoch
  change fun e =>
    { e with
      run := {
        stage := stage.id
        chapter := chapter.id
        store := .initial e.story.declared chapter.declared
        startedAt := now
        status := .playing } }
  change (·.beginChapter now chapter)
  notify true
  return .done

/-- Starts the same chapter anew. -/
def restart (now : Int64) : Procedure Answer := do
  let e ← engine
  if e.run.status = .idle then refuse .notStarted
  else start now (some e.run.stage) (some e.run.chapter)

/-- Goes on into another chapter. -/
def startChapter (now : Int64) (stage chapter : String) : Procedure Answer := do
  if (← engine).run.status = .idle then refuse .notStarted
  else
    let (stage, chapter) ← resolve (some stage) (some chapter)
    let clear := (← engine).ending?.all (·.clearVisuals)
    nextEpoch
    change fun e => { e with run.stage := stage.id, run.chapter := chapter.id, run.node := "" }
    change fun e => { e with run.store := e.run.store.seed chapter.declared }
    if clear then change fun e => { e with run.scene := {} }
    else change fun e => { e with run.scene := e.run.scene.dropExiting }
    change fun e => { e with run.status := .playing }
    change (·.beginChapter now chapter)
    notify true
    return .done

/-- Ends the chapter at a node. -/
def finishChapter (n : Node) : Procedure Answer := do
  let ending := (← engine).endingAt n
  change fun e => { e with run.status := .ended }
  tell fun _ => .chapterEnded ending
  tell fun _ => .storyEnded
  notify false
  return .done

/-- Goes on from the current node. -/
def advance (now : Int64) : Procedure Answer := do
  ensurePlaying
  match (← engine).currentNode? with
  | none => return .done
  | some n =>
    match n.type, n.next? with
    | .choice, _ => refuse (.awaitingChoice n.id)
    | .chapterEnd, _ => finishChapter n
    | _, none => return .done
    | _, some next =>
      change (·.goTo now next)
      notifyAfter n.id
      return .done

/-- Makes one of the choices of the current node. -/
def choose (now : Int64) (index : UInt64) : Procedure Answer := do
  ensurePlaying
  match (← engine).currentNode? with
  | none => refuse .notAtChoice
  | some n =>
    match n.kind with
    | .choice choices =>
      match choices[index.toNat]? with
      | none => refuse (.choiceOutOfRange index choices.length)
      | some c =>
        if (← engine).unlocked c then
          change fun e => { e with run.store := e.run.store.recordChoice c.id }
          change fun e => { e with run.lastIndex := some index, run.lastText := some c.text }
          let beat : Beat := {
            node := n.id
            type := .choice
            content := n.textOrEmpty
            time := now
            choice := some c.text }
          change fun e =>
            { e with run.backlog := e.run.backlog.push beat e.settings.historyLimit }
          match c.effects with
          | some effects => change fun e => { e with run.store := e.run.store.applyEffects effects }
          | none => pure ()
          match c.target? with
          | some next => change (·.goTo now next)
          | none => pure ()
          notifyAfter n.id
          return .done
        else refuse (.choiceLocked c.id)
    | _ => refuse .notAtChoice

/-- Lets at most so many timers fire, and counts them. -/
def pollWithin (now : Int64) : (most : Nat) → Procedure Nat
  | 0 => return 0
  | most + 1 => do
    match (← engine).timers.popDue now with
    | none => return 0
    | some (action, timers) =>
      change fun e => { e with timers }
      let previous := (← engine).run.node
      change (·.fire now action)
      notifyAfter previous
      return (← pollWithin now most) + 1

/-- Lets all timers fire that are due. -/
def poll (now : Int64) : Procedure Answer := do
  return .fired (← pollWithin now (← engine).pollLimit)

/-- Takes up a playthrough that was saved. -/
def load (now : Int64) (text : String) : Procedure Answer := do
  match Playthrough.parse text with
  | .error m => throw (.malformed m)
  | .ok p =>
    nextEpoch
    let loaded := Engine.resumed p now
    change fun e =>
      { e with imageCounter := max e.imageCounter (loaded.scene.maxSerial?.getD 0) }
    change fun e => { e with run := loaded }
    notify true
    return .done

/-- Does what is asked for. -/
def perform (now : Int64) : Request → Procedure Answer
  | .call (.start stage chapter) => start now stage chapter
  | .call .restart => restart now
  | .call (.startChapter stage chapter) => startChapter now stage chapter
  | .call .advance => advance now
  | .call (.choose index) => choose now index
  | .call .poll => poll now
  | .load text => load now text

/-! ### Steps that were taken, and steps that failed -/

section
variable {α β : Type} {x : Procedure α} {f : α → Procedure β} {p p' : Performance}

theorem bind_ok {a : α} (h : x p = .ok a p') : (x >>= f) p = f a p' := by
  change EStateM.bind x f p = _
  rw [EStateM.bind, h]

theorem bind_error {failure : Failure} (h : x p = .error failure p') :
    (x >>= f) p = .error failure p' := by
  change EStateM.bind x f p = _
  rw [EStateM.bind, h]

theorem bind_engine (f : Engine → Procedure β) : (engine >>= f) p = f p.engine p := rfl

theorem bind_change (g : Engine → Engine) (f : Unit → Procedure β) :
    (change g >>= f) p = f () { p with engine := g p.engine } := rfl

end

section
variable (now : Int64) (p : Performance)

theorem resolve_eq (stage chapter : Option String) :
    resolve stage chapter p =
      match p.engine.story.resolve stage chapter with
      | .ok found => .ok found p
      | .error what => .error (.refused (.missing what)) p := by
  unfold resolve
  rw [bind_engine]
  cases p.engine.story.resolve stage chapter <;> rfl

theorem ensurePlaying_eq :
    ensurePlaying p =
      match p.engine.hindrance? with
      | some refusal => .error (.refused refusal) p
      | none => .ok () p := by
  unfold ensurePlaying
  rw [bind_engine]
  cases p.engine.hindrance? <;> rfl

theorem notify_eq (nodeChanged : Bool) :
    notify nodeChanged p = .ok () ⟨p.engine, p.heard ++ p.engine.notices nodeChanged⟩ := by
  unfold Engine.notices
  cases nodeChanged with
  | false =>
    simp only [Bool.false_eq_true, ↓reduceIte, List.append_nil]
    rfl
  | true =>
    simp only [↓reduceIte, ← List.append_assoc]
    rfl

theorem notifyAfter_eq (previous : String) :
    notifyAfter previous p =
      .ok () ⟨p.engine, p.heard ++ (p.engine.settledFrom previous).2⟩ :=
  notify_eq p _

/-- A command that tells its observers last of all answers. -/
theorem notify_done (nodeChanged : Bool) :
    (do notify nodeChanged; return Answer.done : Procedure Answer) p =
      .ok .done ⟨p.engine, p.heard ++ p.engine.notices nodeChanged⟩ :=
  bind_ok (notify_eq p nodeChanged)

/-! ### All or nothing -/

/-- What a procedure does that either answers or fails before it has done anything. -/
def settle : Response → EStateM.Result Failure Performance Answer
  | .ok (answer, e, news) => .ok answer ⟨e, p.heard ++ news⟩
  | .error failure => .error failure p

theorem done_eq :
    (return Answer.done : Procedure Answer) p = settle p (.ok (.done, p.engine, [])) := by
  rw [settle, List.append_nil]
  rfl

theorem start_eq (stage chapter : Option String) :
    start now stage chapter p =
      settle p (Outcome.response (p.engine.start now stage chapter)) := by
  have hresolve := resolve_eq p stage chapter
  unfold start Engine.start
  cases hfound : p.engine.story.resolve stage chapter with
  | error what =>
    rw [hfound] at hresolve
    exact bind_error hresolve
  | ok found =>
    rw [hfound] at hresolve
    rw [bind_ok hresolve]
    exact notify_done ⟨_, p.heard⟩ true

theorem restart_eq : restart now p = settle p (Outcome.response (p.engine.restart now)) := by
  unfold restart Engine.restart
  rw [bind_engine]
  split
  · rfl
  · exact start_eq now p _ _

theorem startChapter_eq (stage chapter : String) :
    startChapter now stage chapter p =
      settle p (Outcome.response (p.engine.startChapter now stage chapter)) := by
  have hresolve := resolve_eq p (some stage) (some chapter)
  unfold startChapter Engine.startChapter
  rw [bind_engine]
  split
  · rfl
  · cases hfound : p.engine.story.resolve (some stage) (some chapter) with
    | error what =>
      rw [hfound] at hresolve
      exact bind_error hresolve
    | ok found =>
      rw [hfound] at hresolve
      rw [bind_ok hresolve]
      obtain ⟨stage, chapter⟩ := found
      dsimp only
      rw [bind_engine]
      cases p.engine.ending?.all (·.clearVisuals) <;> exact notify_done ⟨_, p.heard⟩ true

theorem finishChapter_eq (n : Node) :
    finishChapter n p =
      .ok .done ⟨(p.engine.finishChapter n).1, p.heard ++ (p.engine.finishChapter n).2⟩ := by
  unfold Engine.finishChapter
  simp only [← List.append_assoc]
  exact notify_done ⟨{ p.engine with run.status := .ended }, _⟩ false

theorem advance_eq : advance now p = settle p (Outcome.response (p.engine.advance now)) := by
  have hensure := ensurePlaying_eq p
  unfold advance Engine.advance
  cases hfree : p.engine.hindrance? with
  | some refusal =>
    rw [hfree] at hensure
    exact bind_error hensure
  | none =>
    rw [hfree] at hensure
    rw [bind_ok hensure, bind_engine]
    cases p.engine.currentNode? with
    | none => exact done_eq p
    | some n =>
      dsimp only
      cases n.next? with
      | none =>
        cases n.type with
        | choice => rfl
        | chapterEnd => exact finishChapter_eq p n
        | _ => exact done_eq p
      | some next =>
        cases n.type with
        | choice => rfl
        | chapterEnd => exact finishChapter_eq p n
        | _ => exact notify_done ⟨_, p.heard⟩ _

theorem choose_eq (index : UInt64) :
    choose now index p = settle p (Outcome.response (p.engine.choose now index)) := by
  have hensure := ensurePlaying_eq p
  unfold choose Engine.choose
  cases hfree : p.engine.hindrance? with
  | some refusal =>
    rw [hfree] at hensure
    exact bind_error hensure
  | none =>
    rw [hfree] at hensure
    rw [bind_ok hensure, bind_engine]
    cases p.engine.currentNode? with
    | none => rfl
    | some n =>
      dsimp only
      cases n.kind with
      | choice choices =>
        dsimp only
        cases choices[index.toNat]? with
        | none => rfl
        | some c =>
          dsimp only
          rw [bind_engine]
          split
          · unfold Engine.recordChoice
            cases c.effects <;> cases c.target? <;> exact notify_done ⟨_, p.heard⟩ _
          · rfl
      | _ => rfl

theorem pollWithin_eq (most : Nat) :
    pollWithin now most p =
      .ok (Engine.pollWithin now most p.engine).fired
        ⟨(Engine.pollWithin now most p.engine).engine,
          p.heard ++ (Engine.pollWithin now most p.engine).notices⟩ := by
  induction most generalizing p with
  | zero =>
    simp only [Engine.pollWithin, List.append_nil]
    rfl
  | succ most ih =>
    unfold pollWithin Engine.pollWithin
    rw [bind_engine]
    cases p.engine.timers.popDue now with
    | none =>
      simp only [List.append_nil]
      rfl
    | some popped =>
      obtain ⟨action, timers⟩ := popped
      dsimp only
      rw [bind_change, bind_engine, bind_change, bind_ok (notifyAfter_eq _ _), bind_ok (ih _)]
      simp only [List.append_assoc]
      rfl

theorem load_eq (text : String) :
    load now text p = settle p (p.engine.respond now (.load text)) := by
  unfold load Engine.respond Engine.load
  dsimp only
  cases Playthrough.parse text with
  | error m => rfl
  | ok saved => exact notify_done ⟨p.engine.resume now saved, p.heard⟩ true

/-- A request either is answered, and the engine and the observers are as its response has them, or
it fails, and they are as before. -/
theorem perform_eq (r : Request) : perform now r p = settle p (p.engine.respond now r) := by
  cases r with
  | load text => exact load_eq now p text
  | call c =>
    cases c with
    | start stage chapter => exact start_eq now p stage chapter
    | restart => exact restart_eq now p
    | startChapter stage chapter => exact startChapter_eq now p stage chapter
    | advance => exact advance_eq now p
    | choose index => exact choose_eq now p index
    | poll => exact bind_ok (pollWithin_eq now p p.engine.pollLimit)

end

/-! ## Main result -/

/-- Where a request fails, the engine is as before, with its playthrough, its timers and its serial
numbers, and no observer has heard of anything. This holds of every engine, and the request fails
for the reason that its response gives. -/
theorem perform_error_unchanged {now : Int64} {r : Request} {p after : Performance}
    {failure : Failure} (h : perform now r p = .error failure after) :
    after = p ∧ p.engine.respond now r = .error failure := by
  rw [perform_eq] at h
  cases hresponse : p.engine.respond now r with
  | ok response =>
    rw [hresponse] at h
    cases h
  | error failure' =>
    rw [hresponse] at h
    cases h
    exact ⟨rfl, rfl⟩

/-- The story cannot go on while the first picture comes in. -/
theorem perform_error_unchanged_opening :
    ∃ after, perform 100 (.call .advance) ⟨Gallery.opening, []⟩ =
        .error (.refused .transitionPending) after ∧
      after = ⟨Gallery.opening, []⟩ := by
  have hresponse : Gallery.opening.respond 100 (.call .advance) =
      .error (.refused .transitionPending) := by decide +kernel
  have hfails : perform 100 (.call .advance) ⟨Gallery.opening, []⟩ =
      .error (.refused .transitionPending) ⟨Gallery.opening, []⟩ := by
    rw [perform_eq, hresponse]
    rfl
  exact ⟨_, hfails, (perform_error_unchanged hfails).1⟩

end Procedure
end BranchingStory
