import BranchingStory.Proofs.Procedures
import Mathlib.Data.List.Nodup
/-!
# What observers hear

Every change of state is told to the observers once it has settled, and a change of node right after
it. So the state and the node that an observer has heard of last are those of the engine, from the
first start or load on, however the requests go.
-/

namespace BranchingStory

/-! ## Events that an observer hears -/

namespace Event

/-- The state that an event tells of. -/
def state? : Event → Option Playthrough
  | stateChanged run => some run
  | _ => none

/-- The node that an event tells of, which may be none. -/
def node? : Event → Option (Option Node)
  | nodeChanged n => some n
  | _ => none

/-- The states that events tell of. -/
def states (events : List Event) : List Playthrough := events.filterMap state?

/-- The last state that events tell of. -/
def lastState? (events : List Event) : Option Playthrough := (states events).getLast?

/-- The last node that events tell of. -/
def lastNode? (events : List Event) : Option (Option Node) := (events.filterMap node?).getLast?

theorem states_append (a b : List Event) : states (a ++ b) = states a ++ states b :=
  List.filterMap_append

theorem lastState?_append (a b : List Event) :
    lastState? (a ++ b) = (lastState? b).or (lastState? a) := by
  simp [lastState?, states_append, List.getLast?_append]

/-- Events that tell of no state do not matter to the last one. -/
theorem lastState?_cons {run : Playthrough} {told : List Event} (htold : states told = [])
    (events : List Event) :
    lastState? (.stateChanged run :: (told ++ events)) = some ((lastState? events).getD run) := by
  have hstates : states (.stateChanged run :: (told ++ events)) = run :: states events := by
    change run :: states (told ++ events) = _
    rw [states_append, htold, List.nil_append]
  rw [lastState?, hstates, List.getLast?_cons]
  rfl

theorem lastNode?_append (a b : List Event) :
    lastNode? (a ++ b) = (lastNode? b).or (lastNode? a) := by
  simp [lastNode?, List.getLast?_append]

end Event

/-- The events that one observer hears. -/
def heardBy (observer : Nat) (heard : List Notice) : List Event :=
  (heard.filter (·.observer = observer)).map (·.event)

section
variable {k : Nat} {e : Engine}

theorem heardBy_append (a b : List Notice) : heardBy k (a ++ b) = heardBy k a ++ heardBy k b := by
  simp [heardBy]

/-- Every observer hears what is told once. -/
theorem heardBy_tell (hk : k < e.observers) (event : Event) :
    heardBy k (e.tell event) = [event] := by
  have honce : (List.range e.observers).filter (· = k) = [k] := by
    rw [List.filter_eq, List.count_eq_one_of_mem List.nodup_range (List.mem_range.2 hk)]
    rfl
  unfold heardBy Engine.tell
  rw [List.filter_map]
  change (((List.range e.observers).filter (· = k)).map _).map _ = _
  rw [honce]
  rfl

theorem heardBy_notices (hk : k < e.observers) (nodeChanged : Bool) :
    heardBy k (e.notices nodeChanged) =
      .stateChanged e.run :: if nodeChanged then [.nodeChanged e.currentNode?] else [] := by
  unfold Engine.notices
  rw [heardBy_append, heardBy_tell hk]
  cases nodeChanged with
  | false => rfl
  | true =>
    rw [if_pos rfl, heardBy_tell hk]
    rfl

end

/-! ## Staying in a chapter -/

/-- An engine becomes another one that is in the same chapter and has the same observers. -/
structure Engine.Stays (a b : Engine) : Prop where
  story : b.story = a.story
  observers : b.observers = a.observers
  stage : b.run.stage = a.run.stage
  chapter : b.run.chapter = a.run.chapter

namespace Engine

variable {a b c e : Engine} {now : Int64}

theorem Stays.refl (a : Engine) : a.Stays a := ⟨rfl, rfl, rfl, rfl⟩

theorem Stays.trans (hab : a.Stays b) (hbc : b.Stays c) : a.Stays c :=
  ⟨hbc.story.trans hab.story, hbc.observers.trans hab.observers, hbc.stage.trans hab.stage,
    hbc.chapter.trans hab.chapter⟩

/-- In a chapter the node is known by its id. -/
theorem Stays.currentNode?_eq (h : a.Stays b) (hnode : b.run.node = a.run.node) :
    b.currentNode? = a.currentNode? := by
  unfold currentNode? currentChapter?
  rw [h.story, h.stage, h.chapter, hnode]

theorem stays_walk (chapter : Chapter) (most : Nat) (e : Engine) (id : String) :
    e.Stays (walk now chapter most e id) := by
  refine walk_induction (I := fun _ after => e.Stays after) (fun _ h => h) ?_ chapter most
    (k := 0) (.refl e) id
  intro k after id n h
  obtain ⟨store, backlog, scene, timers, imageCounter, hframe⟩ :=
    (after.atNode id).enter_frame now n
  rw [hframe]
  exact h.trans ⟨rfl, rfl, rfl, rfl⟩

theorem stays_goTo (e : Engine) (now : Int64) (id : String) : e.Stays (e.goTo now id) := by
  unfold goTo
  cases e.currentChapter? with
  | none => exact .refl e
  | some chapter => exact stays_walk ..

theorem stays_fire (e : Engine) (now : Int64) (action : Deferred) :
    e.Stays (e.fire now action) := by
  cases action with
  | removeImage serial => exact ⟨rfl, rfl, rfl, rfl⟩
  | showImage node d => exact ⟨rfl, rfl, rfl, rfl⟩
  | moveOn next => exact stays_goTo e now next

theorem stays_recordChoice (e : Engine) (now : Int64) (n : Node) (index : UInt64) (c : Choice) :
    e.Stays (e.recordChoice now n index c) := ⟨rfl, rfl, rfl, rfl⟩

/-! ## Changes one after the other -/

/-- What an observer hears of the node, when an engine has become another one. -/
def arrival (e after : Engine) : List Event :=
  if after.run.node ≠ e.run.node then [.nodeChanged after.currentNode?] else []

/-- What an observer hears when the engine changes in a chapter, into each of these in turn. -/
def announcements (e : Engine) : List Engine → List Event
  | [] => []
  | after :: rest => .stateChanged after.run :: (arrival e after ++ announcements after rest)

theorem arrival_of_ne {after : Engine} (h : after.run.node ≠ e.run.node) :
    arrival e after = [.nodeChanged after.currentNode?] := if_pos h

theorem arrival_of_eq {after : Engine} (h : after.run.node = e.run.node) :
    arrival e after = [] := if_neg (not_not.2 h)

theorem states_arrival (e after : Engine) : Event.states (arrival e after) = [] := by
  unfold arrival
  split <;> rfl

/-- Each of the states is told once. -/
theorem states_announcements (e : Engine) (stages : List Engine) :
    Event.states (e.announcements stages) = stages.map (·.run) := by
  induction stages generalizing e with
  | nil => rfl
  | cons after rest ih =>
    calc Event.states (e.announcements (after :: rest))
      _ = after.run ::
          (Event.states (arrival e after) ++ Event.states (after.announcements rest)) :=
        congrArg (after.run :: ·) (Event.states_append ..)
      _ = (after :: rest).map (·.run) := by
        rw [states_arrival, ih]
        rfl

theorem lastState?_announcements (e : Engine) (stages : List Engine) :
    (Event.lastState? (e.announcements stages)).getD e.run = (stages.getLastD e).run := by
  rw [Event.lastState?, states_announcements]
  cases stages using List.reverseRecOn <;> simp

theorem stays_last {stages : List Engine} (hstays : (e :: stages).IsChain Stays) :
    e.Stays (stages.getLastD e) := by
  induction stages generalizing e with
  | nil => exact .refl e
  | cons after rest ih =>
    obtain ⟨hafter, hrest⟩ := List.isChain_cons_cons.1 hstays
    rw [List.getLastD_cons]
    exact hafter.trans (ih hrest)

/-- The node that is told last is the one at the end. If none is told, it is still the same. -/
theorem lastNode?_announcements {stages : List Engine} (hstays : (e :: stages).IsChain Stays) :
    (Event.lastNode? (e.announcements stages)).getD e.currentNode? =
      (stages.getLastD e).currentNode? := by
  induction stages generalizing e with
  | nil => rfl
  | cons after rest ih =>
    obtain ⟨hafter, hrest⟩ := List.isChain_cons_cons.1 hstays
    have htold : Event.lastNode? (e.announcements (after :: rest)) =
        (Event.lastNode? (after.announcements rest)).or (Event.lastNode? (arrival e after)) :=
      Event.lastNode?_append ..
    have harrival : (Event.lastNode? (arrival e after)).getD e.currentNode? =
        after.currentNode? := by
      by_cases hmoved : after.run.node = e.run.node
      · rw [arrival_of_eq hmoved]
        exact (hafter.currentNode?_eq hmoved).symm
      · rw [arrival_of_ne hmoved]
        rfl
    rw [List.getLastD_cons, ← ih hrest, htold, Option.getD_or, harrival]

/-- The node is told right after a state, and only if it is another one than in the state before. -/
theorem of_announcements_eq {stages : List Engine} {before later : List Event} {n : Option Node}
    (h : e.announcements stages = before ++ .nodeChanged n :: later) :
    ∃ init run, before = init ++ [.stateChanged run] ∧
      run.node ≠ ((Event.lastState? init).getD e.run).node := by
  induction stages generalizing e before with
  | nil => simp [announcements] at h
  | cons after rest ih =>
    unfold announcements at h
    cases before with
    | nil => simp at h
    | cons first before =>
      obtain ⟨rfl, htail⟩ := List.cons.inj h
      have hlater {before' : List Event} (hbefore : before = arrival e after ++ before')
          (hrest : after.announcements rest = before' ++ .nodeChanged n :: later) :
          ∃ init run, .stateChanged after.run :: before = init ++ [.stateChanged run] ∧
            run.node ≠ ((Event.lastState? init).getD e.run).node := by
        obtain ⟨init, run, rfl, hnode⟩ := ih hrest
        refine ⟨.stateChanged after.run :: (arrival e after ++ init), run, by simp [hbefore], ?_⟩
        rw [Event.lastState?_cons (states_arrival e after)]
        exact hnode
      by_cases hmoved : after.run.node = e.run.node
      · have hnone := arrival_of_eq hmoved
        rw [hnone] at htail
        exact hlater (by rw [hnone]; rfl) htail
      · have hone := arrival_of_ne hmoved
        rw [hone] at htail
        cases before with
        | nil => exact ⟨[], after.run, rfl, hmoved⟩
        | cons second before =>
          obtain ⟨rfl, hrest⟩ := List.cons.inj htail
          exact hlater (by rw [hone]; rfl) hrest

end Engine

/-! ## What one request lets be heard -/

/-- Whether a request begins a state of its own, whatever was before. -/
def Request.opens : Request → Bool
  | .call c => c.startsAnew
  | .load _ => true

/-- What an observer hears while a request is answered, and the engine after it. -/
inductive Engine.Hears (e : Engine) : Request → Answer → Engine → List Event → Prop
  | opened {r : Request} (hopens : r.opens) (after : Engine)
      (hobservers : after.observers = e.observers) :
    Hears e r .done after [.stateChanged after.run, .nodeChanged after.currentNode?]
  | ended (ending : Ending) (after : Engine) (hstays : e.Stays after)
      (hnode : after.run.node = e.run.node) :
    Hears e (.call .advance) .done after
      [.chapterEnded ending, .storyEnded, .stateChanged after.run]
  | settled {r : Request} {answer : Answer} {stages : List Engine} (hopens : r.opens = false)
      (hcount : if r = .call .poll then answer = .fired stages.length else stages.length ≤ 1)
      (hstays : (e :: stages).IsChain Stays) :
    Hears e r answer (stages.getLastD e) (e.announcements stages)

theorem Outcome.of_response {o : Outcome} {answer : Answer} {after : Engine} {news : List Notice}
    (h : o.response = .ok (answer, after, news)) : answer = .done ∧ o = .ok (after, news) := by
  cases o with
  | error refusal => cases h
  | ok out =>
    cases h
    exact ⟨rfl, rfl⟩

namespace Engine

section
variable {e after : Engine} {now : Int64} {news : List Notice} {k : Nat}

/-- What is answered to a call, and the engine after it, are what comes of the call. -/
theorem call_of_respond {c : Call} {answer : Answer}
    (h : e.respond now (.call c) = .ok (answer, after, news)) :
    e.call now c = .ok (answer, after) := by
  cases c with
  | poll =>
    cases h
    rfl
  | _ =>
    obtain ⟨rfl, hcommand⟩ := Outcome.of_response h
    simp [call, hcommand, Except.map]

theorem stays_beginChapter (e : Engine) (now : Int64) (chapter : Chapter) :
    e.Stays (e.beginChapter now chapter) := by
  unfold beginChapter
  cases chapter.entry? with
  | none => exact .refl e
  | some entry =>
    have hentry : e.Stays { e with run.node := entry } := ⟨rfl, rfl, rfl, rfl⟩
    exact hentry.trans (stays_walk ..)

/-! ### Requests that open -/

/-- The observers are those from before, and hear of the state and of the node. -/
structure Opened (e after : Engine) (news : List Notice) : Prop where
  news : news = after.notices true
  observers : after.observers = e.observers

theorem opened_start {stage chapter : Option String}
    (h : e.start now stage chapter = .ok (after, news)) :
    e.Opened after news := by
  unfold start at h
  cases hfound : e.story.resolve stage chapter with
  | error what => simp [hfound] at h
  | ok found =>
    simp only [hfound, Except.ok.injEq, Prod.mk.injEq] at h
    obtain ⟨rfl, rfl⟩ := h
    exact ⟨rfl, (stays_beginChapter ..).observers⟩

theorem opened_restart (h : e.restart now = .ok (after, news)) : e.Opened after news := by
  unfold restart at h
  split at h
  · cases h
  · exact opened_start h

theorem opened_startChapter {stage chapter : String}
    (h : e.startChapter now stage chapter = .ok (after, news)) :
    e.Opened after news := by
  unfold startChapter at h
  split at h
  · cases h
  · cases hfound : e.story.resolve (some stage) (some chapter) with
    | error what => simp [hfound] at h
    | ok found =>
      simp only [hfound, Except.ok.injEq, Prod.mk.injEq] at h
      obtain ⟨rfl, rfl⟩ := h
      exact ⟨rfl, (stays_beginChapter ..).observers⟩

theorem opened_load {text : String} (h : e.load now text = .ok (after, news)) :
    e.Opened after news := by
  unfold load at h
  cases hp : Playthrough.parse text with
  | error m =>
    rw [hp] at h
    cases h
  | ok p =>
    rw [hp] at h
    cases h
    exact ⟨rfl, rfl⟩

/-- All that an observer hears of a request that opens is the state and the node. -/
theorem Opened.hears {r : Request} (h : e.Opened after news) (hopens : r.opens)
    (hk : k < e.observers) : e.Hears r .done after (heardBy k news) := by
  rw [h.news, heardBy_notices (h.observers ▸ hk)]
  exact .opened hopens after h.observers

/-! ### Going on -/

theorem id_of_currentNode? {n : Node} (h : e.currentNode? = some n) : n.id = e.run.node := by
  obtain ⟨chapter, -, hnode⟩ := Option.bind_eq_some_iff.1 h
  exact (Chapter.mem_of_node? hnode).2

theorem heardBy_settledFrom {next : Engine} (hk : k < next.observers) :
    heardBy k (next.settledFrom e.run.node).2 = .stateChanged next.run :: arrival e next := by
  unfold settledFrom arrival
  rw [heardBy_notices hk]
  simp

theorem hears_settled {r : Request} {next : Engine} (hopens : r.opens = false)
    (hr : r ≠ .call .poll) (hk : k < e.observers) (hstays : e.Stays next) :
    e.Hears r .done next (heardBy k (next.settledFrom e.run.node).2) := by
  have hone : e.Hears r .done ([next].getLastD e) (e.announcements [next]) := by
    refine .settled hopens ?_ (.cons_cons hstays (.singleton _))
    rw [if_neg hr]
    exact Nat.le_refl 1
  rw [heardBy_settledFrom (hstays.observers ▸ hk)]
  rwa [announcements, announcements, List.append_nil] at hone

theorem hears_finishChapter (n : Node) (hk : k < e.observers) :
    e.Hears (.call .advance) .done (e.finishChapter n).1 (heardBy k (e.finishChapter n).2) := by
  have hended : k < (e.finishChapter n).1.observers := hk
  have hheard : heardBy k (e.finishChapter n).2 = [.chapterEnded (e.endingAt n), .storyEnded,
      .stateChanged (e.finishChapter n).1.run] := by
    change heardBy k ((e.finishChapter n).1.tell _ ++ (e.finishChapter n).1.tell _
      ++ (e.finishChapter n).1.notices false) = _
    rw [heardBy_append, heardBy_append, heardBy_tell hended, heardBy_tell hended,
      heardBy_notices hended]
    rfl
  rw [hheard]
  exact .ended _ _ ⟨rfl, rfl, rfl, rfl⟩ rfl

theorem hears_advance (hk : k < e.observers) (h : e.advance now = .ok (after, news)) :
    e.Hears (.call .advance) .done after (heardBy k news) := by
  have hnothing : e.Hears (.call .advance) .done ([].getLastD e) (e.announcements []) :=
    .settled rfl (by simp) (.singleton _)
  unfold advance at h
  cases hfree : e.hindrance? with
  | some refusal => simp [hfree] at h
  | none =>
    simp only [hfree] at h
    split at h
    · cases h
      exact hnothing
    · rename_i n hn
      split at h
      · cases h
      · cases h
        exact hears_finishChapter n hk
      · cases h
        exact hnothing
      · rename_i next _ _ _
        cases h
        rw [id_of_currentNode? hn]
        exact hears_settled rfl (by simp) hk (stays_goTo e now next)

theorem hears_choose {index : UInt64} (hk : k < e.observers)
    (h : e.choose now index = .ok (after, news)) :
    e.Hears (.call (.choose index)) .done after (heardBy k news) := by
  unfold choose at h
  cases hfree : e.hindrance? with
  | some refusal => simp [hfree] at h
  | none =>
    simp only [hfree] at h
    split at h
    · cases h
    · rename_i n hn
      split at h
      · split at h
        · cases h
        · rename_i c hc
          split at h
          · cases h
            have hrecorded := stays_recordChoice e now n index c
            have hstays : e.Stays (c.target?.elim (e.recordChoice now n index c)
                ((e.recordChoice now n index c).goTo now)) := by
              cases c.target? with
              | none => exact hrecorded
              | some next => exact hrecorded.trans (stays_goTo ..)
            rw [id_of_currentNode? hn]
            exact hears_settled rfl (by simp) hk hstays
          · cases h
      · cases h

/-- Each timer that fires lets the engine change once. -/
theorem heardBy_pollWithin (now : Int64) (most : Nat) (hk : k < e.observers) :
    ∃ stages, heardBy k (pollWithin now most e).notices = e.announcements stages ∧
      stages.length = (pollWithin now most e).fired ∧
      stages.getLastD e = (pollWithin now most e).engine ∧ (e :: stages).IsChain Stays := by
  induction most generalizing e with
  | zero => exact ⟨[], rfl, rfl, rfl, .singleton e⟩
  | succ most ih =>
    unfold pollWithin
    cases e.timers.popDue now with
    | none => exact ⟨[], rfl, rfl, rfl, .singleton e⟩
    | some popped =>
      obtain ⟨action, timers⟩ := popped
      dsimp only
      have hpopped : e.Stays { e with timers } := ⟨rfl, rfl, rfl, rfl⟩
      have hstays := hpopped.trans (stays_fire { e with timers } now action)
      generalize { e with timers }.fire now action = next at hstays ⊢
      have hnext : k < next.observers := hstays.observers ▸ hk
      obtain ⟨stages, hheard, hfired, hlast, hchain⟩ := ih hnext
      refine ⟨next :: stages, ?_, ?_, ?_, .cons_cons hstays hchain⟩
      · rw [heardBy_append, heardBy_settledFrom hnext]
        exact congrArg (_ :: arrival e next ++ ·) hheard
      · exact congrArg (· + 1) hfired
      · exact List.getLastD_cons.trans hlast

/-- A request that opens answers nothing, and what is told of it is the state and the node. -/
theorem opened_of_respond {r : Request} {answer : Answer} (hopens : r.opens)
    (h : e.respond now r = .ok (answer, after, news)) : answer = .done ∧ e.Opened after news := by
  cases r with
  | load text =>
    unfold respond at h
    dsimp only at h
    cases hload : e.load now text with
    | error m =>
      rw [hload] at h
      cases h
    | ok out =>
      rw [hload] at h
      cases h
      exact ⟨rfl, opened_load hload⟩
  | call c =>
    cases c with
    | start stage chapter => exact (Outcome.of_response h).imp_right opened_start
    | restart => exact (Outcome.of_response h).imp_right opened_restart
    | startChapter stage chapter => exact (Outcome.of_response h).imp_right opened_startChapter
    | advance => cases hopens
    | choose index => cases hopens
    | poll => cases hopens

/-- Whatever is answered, an observer has heard what belongs to it. -/
theorem hears_of_respond {r : Request} {answer : Answer} (hk : k < e.observers)
    (h : e.respond now r = .ok (answer, after, news)) :
    e.Hears r answer after (heardBy k news) := by
  by_cases hopens : r.opens
  · obtain ⟨rfl, hopened⟩ := opened_of_respond hopens h
    exact hopened.hears hopens hk
  cases r with
  | load text => exact absurd rfl hopens
  | call c =>
    cases c with
    | start stage chapter => exact absurd rfl hopens
    | restart => exact absurd rfl hopens
    | startChapter stage chapter => exact absurd rfl hopens
    | advance =>
      obtain ⟨rfl, hadvance⟩ := Outcome.of_response h
      exact hears_advance hk hadvance
    | choose index =>
      obtain ⟨rfl, hchoose⟩ := Outcome.of_response h
      exact hears_choose hk hchoose
    | poll =>
      cases h
      obtain ⟨stages, hheard, hfired, hlast, hchain⟩ :=
        heardBy_pollWithin now e.pollLimit hk
      have hpolled : e.Hears (.call .poll) (.fired stages.length) (stages.getLastD e)
          (e.announcements stages) := .settled rfl (by simp) hchain
      rwa [hlast, hfired, ← hheard] at hpolled

end

namespace Hears

variable {e after : Engine} {r : Request} {answer : Answer} {events : List Event}

/-- No observer goes while a request is answered. -/
theorem observers (h : e.Hears r answer after events) : after.observers = e.observers := by
  cases h with
  | opened _ _ hobservers => exact hobservers
  | ended _ _ hstays => exact hstays.observers
  | settled _ _ hstays => exact (stays_last hstays).observers

/-- The state that is told last is the one at the end. If none is told, it is still the same. -/
theorem getD_lastState? (h : e.Hears r answer after events) :
    (Event.lastState? events).getD e.run = after.run := by
  cases h with
  | opened => rfl
  | ended => rfl
  | settled _ _ hstays => exact lastState?_announcements e _

theorem getD_lastNode? (h : e.Hears r answer after events) :
    (Event.lastNode? events).getD e.currentNode? = after.currentNode? := by
  cases h with
  | opened => rfl
  | ended _ _ hstays hnode => exact (hstays.currentNode?_eq hnode).symm
  | settled _ _ hstays => exact lastNode?_announcements hstays

theorem of_opens (h : e.Hears r answer after events) (hopens : r.opens) :
    Event.lastState? events = some after.run ∧
      Event.lastNode? events = some after.currentNode? := by
  cases h with
  | opened => exact ⟨rfl, rfl⟩
  | ended => cases hopens
  | settled hnot =>
    rw [hnot] at hopens
    cases hopens

/-- A poll tells of as many states as timers fired, and any other request of at most one. -/
theorem count (h : e.Hears r answer after events) :
    if r = .call .poll then answer = .fired (Event.states events).length
    else (Event.states events).length ≤ 1 := by
  cases h with
  | opened hopens =>
    rw [if_neg (by rintro rfl; cases hopens)]
    exact Nat.le_refl 1
  | ended =>
    rw [if_neg (by simp)]
    exact Nat.le_refl 1
  | settled _ hcount =>
    rw [states_announcements, List.length_map]
    exact hcount

/-- A node is told right after a state. It is the one of a request that opens, or another one than
in the state before. -/
theorem of_nodeChanged (h : e.Hears r answer after events) {before later : List Event}
    {n : Option Node} (hevents : events = before ++ .nodeChanged n :: later) :
    ∃ init run, before = init ++ [.stateChanged run] ∧
      (r.opens ∨ run.node ≠ ((Event.lastState? init).getD e.run).node) := by
  cases h with
  | opened hopens =>
    refine ⟨[], after.run, ?_, .inl hopens⟩
    cases before with
    | nil => simp at hevents
    | cons first before =>
      obtain ⟨rfl, htail⟩ := List.cons.inj hevents
      rcases List.append_eq_singleton_iff.1 htail.symm with ⟨rfl, -⟩ | ⟨-, hnil⟩
      · rfl
      · cases hnil
  | ended ending =>
    have hmem : Event.nodeChanged n ∈
        [.chapterEnded ending, .storyEnded, .stateChanged after.run] := by
      rw [hevents]
      exact List.mem_append_right _ (.head _)
    simp at hmem
  | settled =>
    obtain ⟨init, run, hbefore, hmoved⟩ := of_announcements_eq hevents
    exact ⟨init, run, hbefore, .inr hmoved⟩

end Hears

end Engine

/-! ## Engines at work -/

namespace Performance

/-- What comes after a request, whether it is answered or fails. -/
def after (p : Performance) (now : Int64) (r : Request) : Performance :=
  match Procedure.perform now r p with
  | .ok _ q => q
  | .error _ q => q

/-- What comes after some requests, each made at its time. -/
def afterAll (p : Performance) (requests : List (Int64 × Request)) : Performance :=
  requests.foldl (fun p r => p.after r.1 r.2) p

/-- An observer has heard last of the state and of the node that the engine has. -/
structure InSync (p : Performance) (observer : Nat) : Prop where
  state : Event.lastState? (heardBy observer p.heard) = some p.engine.run
  node : Event.lastNode? (heardBy observer p.heard) = some p.engine.currentNode?

variable {p q : Performance} {k : Nat} {now : Int64} {r : Request} {answer : Answer}

/-- A request that is answered is answered as the engine responds to it. -/
theorem of_perform (h : Procedure.perform now r p = .ok answer q) :
    ∃ news, p.engine.respond now r = .ok (answer, q.engine, news) ∧
      q.heard = p.heard ++ news := by
  rw [Procedure.perform_eq] at h
  cases hresponse : p.engine.respond now r with
  | error failure =>
    rw [hresponse] at h
    cases h
  | ok response =>
    obtain ⟨answer', e, news⟩ := response
    rw [hresponse] at h
    cases h
    exact ⟨news, rfl, rfl⟩

/-- What is heard while a request is answered comes after what was heard before. -/
theorem hears_of_perform (hk : k < p.engine.observers)
    (h : Procedure.perform now r p = .ok answer q) :
    ∃ news, heardBy k q.heard = heardBy k p.heard ++ news ∧
      p.engine.Hears r answer q.engine news := by
  obtain ⟨news, hresponse, hheard⟩ := of_perform h
  refine ⟨heardBy k news, ?_, Engine.hears_of_respond hk hresponse⟩
  rw [hheard, heardBy_append]

/-- A request that fails changes nothing, and any other one is answered. -/
theorem after_eq_or_ok (p : Performance) (now : Int64) (r : Request) :
    p.after now r = p ∨ ∃ answer, Procedure.perform now r p = .ok answer (p.after now r) := by
  unfold after
  rw [Procedure.perform_eq]
  cases p.engine.respond now r with
  | error failure => exact .inl rfl
  | ok response => exact .inr ⟨_, rfl⟩

theorem observers_after (hk : k < p.engine.observers) (now : Int64) (r : Request) :
    k < (p.after now r).engine.observers := by
  rcases p.after_eq_or_ok now r with hsame | ⟨answer, hok⟩
  · rwa [hsame]
  · obtain ⟨news, -, hhears⟩ := hears_of_perform hk hok
    rwa [hhears.observers]

theorem observers_afterAll (hk : k < p.engine.observers) (requests : List (Int64 × Request)) :
    k < (p.afterAll requests).engine.observers := by
  induction requests generalizing p with
  | nil => exact hk
  | cons first rest ih => exact ih (observers_after hk first.1 first.2)

/-- What was heard later goes before what was heard earlier. -/
theorem InSync.after (h : p.InSync k) (hk : k < p.engine.observers) (now : Int64) (r : Request) :
    (p.after now r).InSync k := by
  rcases p.after_eq_or_ok now r with hsame | ⟨answer, hok⟩
  · rwa [hsame]
  · obtain ⟨news, hheard, hhears⟩ := hears_of_perform hk hok
    constructor
    · rw [hheard, Event.lastState?_append, h.state, Option.or_some, hhears.getD_lastState?]
    · rw [hheard, Event.lastNode?_append, h.node, Option.or_some, hhears.getD_lastNode?]

theorem InSync.afterAll (h : p.InSync k) (hk : k < p.engine.observers)
    (requests : List (Int64 × Request)) : (p.afterAll requests).InSync k := by
  induction requests generalizing p with
  | nil => exact h
  | cons first rest ih => exact ih (h.after hk first.1 first.2) (observers_after hk first.1 first.2)

/-- A request that opens sets every observer right. -/
theorem inSync_of_opens (hk : k < p.engine.observers) (hopens : r.opens)
    (h : Procedure.perform now r p = .ok answer q) : q.InSync k := by
  obtain ⟨news, hheard, hhears⟩ := hears_of_perform hk h
  obtain ⟨hstate, hnode⟩ := hhears.of_opens hopens
  constructor
  · rw [hheard, Event.lastState?_append, hstate, Option.some_or]
  · rw [hheard, Event.lastNode?_append, hnode, Option.some_or]

/-! ## Main result -/

/-- Once a request has opened, what an observer has heard last of the state and of the node is what
the engine has. A poll tells of one state for each timer that fired, and another request of one at
most. The node is told right after a state, when the request opens or the node has changed. -/
theorem observers_in_sync (p : Performance) {k : Nat} (hk : k < p.engine.observers) :
    (∀ before now r later, r.opens →
      (∃ answer q, Procedure.perform now r (p.afterAll before) = .ok answer q) →
      (p.afterAll (before ++ (now, r) :: later)).InSync k) ∧
    ∀ now r answer q, Procedure.perform now r p = .ok answer q →
      ∃ news, heardBy k q.heard = heardBy k p.heard ++ news ∧
        (if r = .call .poll then answer = .fired (Event.states news).length
          else (Event.states news).length ≤ 1) ∧
        ∀ before n later, news = before ++ .nodeChanged n :: later →
          ∃ init run, before = init ++ [.stateChanged run] ∧
            (r.opens ∨ run.node ≠ ((Event.lastState? init).getD p.engine.run).node) := by
  refine ⟨?sync, ?told⟩
  case sync =>
    rintro before now r later hopens ⟨answer, q, hok⟩
    have hbefore := observers_afterAll hk before
    have hafter : (p.afterAll before).after now r = q := by rw [after, hok]
    have hall : p.afterAll (before ++ (now, r) :: later) = q.afterAll later := by
      rw [← hafter]
      exact List.foldl_append
    have hq : k < q.engine.observers := hafter ▸ observers_after hbefore now r
    rw [hall]
    exact (inSync_of_opens hbefore hopens hok).afterAll hq later
  case told =>
    intro now r answer q hok
    obtain ⟨news, hheard, hhears⟩ := hears_of_perform hk hok
    exact ⟨news, hheard, hhears.count, fun before n later => hhears.of_nodeChanged⟩

/-- Two observers watch the gallery. The start is told to the second one, and nothing is while the
story cannot go on; then a timer fires. -/
theorem observers_in_sync_gallery :
    let watched : Performance := ⟨{ story := Gallery.story, observers := 2 }, []⟩
    (watched.afterAll [(0, .call (.start none none)), (100, .call .advance),
      (300, .call .poll)]).InSync 1 ∧
    ∃ answer q news, Procedure.perform 0 (.call (.start none none)) watched = .ok answer q ∧
      heardBy 1 q.heard = news ∧ (Event.states news).length ≤ 1 := by
  intro watched
  obtain ⟨hsync, htold⟩ := observers_in_sync watched (by decide : 1 < 2)
  obtain ⟨answer, hstarts⟩ : ∃ answer, Procedure.perform 0 (.call (.start none none)) watched =
      .ok answer (watched.after 0 (.call (.start none none))) := by
    rcases watched.after_eq_or_ok 0 (.call (.start none none)) with hsame | hok
    · exact absurd hsame (by decide +kernel)
    · exact hok
  obtain ⟨news, hheard, hcount, -⟩ := htold _ _ _ _ hstarts
  exact ⟨hsync [] _ _ _ rfl ⟨answer, _, hstarts⟩, answer, _, news, hstarts, hheard, hcount⟩

end Performance
end BranchingStory
