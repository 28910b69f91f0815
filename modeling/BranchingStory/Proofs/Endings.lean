import BranchingStory.Proofs.Departures
import BranchingStory.Proofs.Observers
import BranchingStory.Proofs.Transitions
/-!
# The end of a chapter

A chapter ends once. Going on at its end is the only thing that ends it, and only then do the
observers hear of an end. From then on the story is at rest: timers may still fire, but the node
stays, nothing can be chosen, and no further end is told until a request opens again.
-/

namespace BranchingStory

/-! ## What is told of ends -/

/-- Whether an event tells of an end. -/
def Event.isEnd : Event → Bool
  | chapterEnded _ | storyEnded => true
  | _ => false

/-- The notices of ends. -/
def endings (heard : List Notice) : List Notice := heard.filter (·.event.isEnd)

theorem endings_append (a b : List Notice) : endings (a ++ b) = endings a ++ endings b :=
  List.filter_append ..

namespace Engine

theorem endings_tell (e : Engine) (event : Event) :
    endings (e.tell event) = if event.isEnd then e.tell event else [] := by
  unfold endings tell
  split <;> simp_all

/-- A state and a node are no ends. -/
theorem endings_notices (e : Engine) (nodeChanged : Bool) :
    endings (e.notices nodeChanged) = [] := by
  unfold notices
  rw [endings_append, endings_tell]
  cases nodeChanged with
  | false => rfl
  | true => exact e.endings_tell _

/-! ## What one request does -/

/-- An engine comes to the end of its chapter: it is at a node that is one, and hears of nothing but
that end and the new state. -/
structure Ends (e : Engine) (ending : Ending) (after : Engine) (news : List Notice) : Prop where
  free : e.Free
  node : ∃ n, e.currentNode? = some n ∧ n.type = .chapterEnd
  leads : e.ending? = some ending
  final : after = { e with run.status := .ended }
  told : news =
    e.tell (.chapterEnded ending) ++ e.tell .storyEnded ++ e.tell (.stateChanged after.run)

/-- An engine becomes another one without coming to an end. If it is at the end already, it stays at
its node. -/
structure Persists (e after : Engine) (news : List Notice) : Prop where
  stays : e.Stays after
  status : after.run.status = e.run.status
  node : e.run.status = .ended → after.run.node = e.run.node
  quiet : endings news = []

variable {e after : Engine} {now : Int64} {news : List Notice}

theorem Persists.refl (e : Engine) : e.Persists e [] := ⟨.refl e, rfl, fun _ => rfl, rfl⟩

theorem status_walk (chapter : Chapter) (most : Nat) (e : Engine) (id : String) :
    (walk now chapter most e id).run.status = e.run.status := by
  refine walk_induction (I := fun _ after => after.run.status = e.run.status) (fun _ h => h) ?_
    chapter most (k := 0) rfl id
  intro k after id n h
  obtain ⟨store, backlog, scene, timers, imageCounter, hframe⟩ :=
    (after.atNode id).enter_frame now n
  rw [hframe]
  exact h

theorem status_goTo (e : Engine) (now : Int64) (id : String) :
    (e.goTo now id).run.status = e.run.status := by
  unfold goTo
  cases e.currentChapter? with
  | none => rfl
  | some chapter => exact status_walk ..

/-- Going to a node is no end, and what is told of it is none either. -/
theorem persists_settled {next : Engine} (hfree : e.Free) (hstays : e.Stays next)
    (hstatus : next.run.status = e.run.status) (previous : String) :
    e.Persists next (next.settledFrom previous).2 where
  stays := hstays
  status := hstatus
  node hended := by simp [hfree.1] at hended
  quiet := endings_notices ..

theorem ends_finishChapter {n : Node} (hfree : e.Free) (hn : e.currentNode? = some n)
    (htype : n.type = .chapterEnd) :
    e.Ends (e.endingAt n) (e.finishChapter n).1 (e.finishChapter n).2 where
  free := hfree
  node := ⟨n, hn, htype⟩
  leads := by simp [ending?, hn, htype]
  final := rfl
  told := by simp [finishChapter, notices, tell]

theorem advance_ends_or_persists (h : e.advance now = .ok (after, news)) :
    (∃ ending, e.Ends ending after news) ∨ e.Persists after news := by
  unfold advance at h
  cases hhindrance : e.hindrance? with
  | some refusal => simp [hhindrance] at h
  | none =>
    have hfree := hindrance?_eq_none.1 hhindrance
    simp only [hhindrance] at h
    split at h
    · cases h
      exact .inr (.refl e)
    · rename_i n hn
      split at h
      · cases h
      · rename_i htype
        cases h
        exact .inl ⟨_, ends_finishChapter hfree hn htype⟩
      · cases h
        exact .inr (.refl e)
      · cases h
        exact .inr (persists_settled hfree (stays_goTo ..) (status_goTo ..) _)

theorem persists_choose {index : UInt64} (h : e.choose now index = .ok (after, news)) :
    e.Persists after news := by
  unfold choose at h
  cases hhindrance : e.hindrance? with
  | some refusal => simp [hhindrance] at h
  | none =>
    have hfree := hindrance?_eq_none.1 hhindrance
    simp only [hhindrance] at h
    split at h
    · cases h
    · rename_i n hn
      split at h
      · split at h
        · cases h
        · rename_i c hc
          split at h
          · cases h
            have hrecorded := stays_recordChoice e now n index c
            cases c.target? with
            | none => exact persists_settled hfree hrecorded rfl _
            | some next =>
              exact persists_settled hfree (hrecorded.trans (stays_goTo ..)) (status_goTo ..) _
          · cases h
      · cases h

/-- Where nothing is to be waited for, no timer that fires leads on. -/
theorem transitionPending_of_popDue {action : Deferred} {timers : Timers}
    (hnone : e.timers.transitionPending = false)
    (h : e.timers.popDue now = some (action, timers)) :
    action.isTransition = false ∧ timers.transitionPending = false := by
  rw [Timers.transitionPending_eq_false] at hnone
  obtain ⟨timer, hlive, -, rfl, rfl, -⟩ := Timers.of_popDue h
  refine ⟨hnone timer hlive, ?_⟩
  rw [Timers.transitionPending_eq_false, Timers.live_erase]
  exact fun t ht => hnone t (List.mem_of_mem_erase ht)

theorem status_fire (e : Engine) (now : Int64) (action : Deferred) :
    (e.fire now action).run.status = e.run.status := by
  cases action with
  | removeImage serial => rfl
  | showImage node d => rfl
  | moveOn next => exact status_goTo e now next

/-- Timers are no ends, however many of them fire. Images that come and go leave the story at its
node. -/
theorem persists_pollWithin (now : Int64) (most : Nat)
    (hended : e.run.status = .ended → e.timers.transitionPending = false) :
    e.Persists (pollWithin now most e).engine (pollWithin now most e).notices := by
  induction most generalizing e with
  | zero => exact .refl e
  | succ most ih =>
    unfold pollWithin
    cases hdue : e.timers.popDue now with
    | none => exact .refl e
    | some popped =>
      obtain ⟨action, timers⟩ := popped
      dsimp only
      have hpopped : e.Stays { e with timers } := ⟨rfl, rfl, rfl, rfl⟩
      have hstays := hpopped.trans (stays_fire { e with timers } now action)
      have hstatus := status_fire { e with timers } now action
      have hfired : e.run.status = .ended →
          ({ e with timers }.fire now action).run.node = e.run.node ∧
          ({ e with timers }.fire now action).timers.transitionPending = false := by
        intro hstatus
        obtain ⟨haction, htimers⟩ := transitionPending_of_popDue (hended hstatus) hdue
        cases action with
        | removeImage serial => exact ⟨rfl, htimers⟩
        | showImage node d => exact ⟨rfl, htimers⟩
        | moveOn next => cases haction
      generalize { e with timers }.fire now action = next at hstays hstatus hfired ⊢
      have hrest := ih fun hnext => (hfired (hstatus.symm.trans hnext)).2
      refine ⟨hstays.trans hrest.stays, hrest.status.trans hstatus, fun hended => ?_, ?_⟩
      · exact (hrest.node (hstatus.trans hended)).trans (hfired hended).1
      · exact (endings_append ..).trans (by rw [settledFrom, endings_notices, hrest.quiet]; rfl)

/-- An engine that is at the end of its chapter waits for nothing. -/
theorem Paced.transitionPending_of_ended (h : e.Paced) (hended : e.run.status = .ended) :
    e.timers.transitionPending = false := by
  rw [Timers.transitionPending_eq_false]
  intro t ht
  cases haction : t.action with
  | moveOn next =>
    have hplaying := (h.heldBack t ht next haction).playing
    simp [hended] at hplaying
  | _ => rfl

/-- A request that does not open ends the chapter or leaves the end alone. Only going on ends it. -/
theorem Paced.ends_or_persists {r : Request} {answer : Answer} (he : e.Paced)
    (hopens : r.opens = false) (h : e.respond now r = .ok (answer, after, news)) :
    (r = .call .advance ∧ ∃ ending, e.Ends ending after news) ∨ e.Persists after news := by
  cases r with
  | load text => cases hopens
  | call c =>
    cases c with
    | start stage chapter => cases hopens
    | restart => cases hopens
    | startChapter stage chapter => cases hopens
    | advance =>
      obtain ⟨-, hadvance⟩ := Outcome.of_response h
      exact (advance_ends_or_persists hadvance).imp_left fun hends => ⟨rfl, hends⟩
    | choose index =>
      obtain ⟨-, hchoose⟩ := Outcome.of_response h
      exact .inr (persists_choose hchoose)
    | poll =>
      cases h
      exact .inr (persists_pollWithin _ _ he.transitionPending_of_ended)

/-- A request that opens tells of no end. -/
theorem Opened.quiet (h : e.Opened after news) : endings news = [] := by
  rw [h.news, endings_notices]

/-- Where an engine goes from the end of its chapter depends on its node only. -/
theorem Stays.ending?_eq (h : e.Stays after) (hnode : after.run.node = e.run.node) :
    after.ending? = e.ending? := by
  unfold ending? endingAt
  rw [h.currentNode?_eq hnode, h.story, h.stage, h.chapter]

end Engine

/-! ## Engines at work -/

namespace Performance

/-- No request of these opens: each that would is refused. -/
def OpensNothing (p : Performance) : List (Int64 × Request) → Prop
  | [] => True
  | (now, r) :: rest =>
    (r.opens → ∃ failure, Procedure.perform now r p = .error failure p) ∧
      (p.after now r).OpensNothing rest

/-- The chapter comes to its end when the story goes on. The engine is at a node that is an end, and
its observers hear of where it leads, which the engine knows before and after. -/
structure Ends (p : Performance) (now : Int64) (ending : Ending) (q : Performance) : Prop where
  performed : Procedure.perform now (.call .advance) p = .ok .done q
  playing : p.engine.run.status = .playing
  ended : q.engine.run.status = .ended
  node : ∃ n, p.engine.currentNode? = some n ∧ n.type = .chapterEnd
  leads : p.engine.ending? = some ending ∧ q.engine.ending? = some ending
  heard : q.heard = p.heard ++ (p.engine.tell (.chapterEnded ending) ++
    p.engine.tell .storyEnded ++ p.engine.tell (.stateChanged q.engine.run))

/-- The story is at rest at the end of its chapter, as it was before. It is at the same node, leads
to where it led, and refuses to go on. No further end has been told. -/
structure Rests (p : Performance) (ending : Ending) (q : Performance) : Prop where
  ended : q.engine.run.status = .ended
  node : q.engine.run.node = p.engine.run.node ∧ q.engine.currentNode? = p.engine.currentNode?
  leads : q.engine.ending? = some ending
  quiet : endings q.heard = endings p.heard
  refuses : ∀ now c, (c = .advance ∨ ∃ index, c = .choose index) →
    Procedure.perform now (.call c) q = .error (.refused .chapterEnded) q

/-- The chapter does not come to its end with any of these requests. -/
def WithoutEnd (p : Performance) (requests : List (Int64 × Request)) : Prop :=
  ∀ done, done <+: requests →
    (p.afterAll done).engine.run.status = p.engine.run.status ∧
      endings (p.afterAll done).heard = endings p.heard

/-- Whatever was heard in between, it was not of an end. If the story was at the end of its chapter,
it has stayed at its node. -/
structure Persists (p q : Performance) : Prop where
  stays : p.engine.Stays q.engine
  status : q.engine.run.status = p.engine.run.status
  node : p.engine.run.status = .ended → q.engine.run.node = p.engine.run.node
  quiet : endings q.heard = endings p.heard

variable {s : Story} {p q : Performance} {now : Int64} {r : Request} {answer : Answer}
  {ending : Ending} {requests : List (Int64 × Request)}

theorem Persists.refl (p : Performance) : p.Persists p := ⟨.refl _, rfl, fun _ => rfl, rfl⟩

theorem Persists.trans {o : Performance} (hpq : p.Persists q) (hqo : q.Persists o) :
    p.Persists o where
  stays := hpq.stays.trans hqo.stays
  status := hqo.status.trans hpq.status
  node hended := (hqo.node (hpq.status.trans hended)).trans (hpq.node hended)
  quiet := hqo.quiet.trans hpq.quiet

/-- What is told of an end comes after what was heard before. -/
theorem Ends.of_engine {news : List Notice} (h : p.engine.Ends ending q.engine news)
    (hok : Procedure.perform now (.call .advance) p = .ok .done q)
    (hheard : q.heard = p.heard ++ news) : p.Ends now ending q := by
  have hstays : p.engine.Stays q.engine := by
    rw [h.final]
    exact ⟨rfl, rfl, rfl, rfl⟩
  have hnode : q.engine.run.node = p.engine.run.node := by rw [h.final]
  exact ⟨hok, h.free.1, by rw [h.final], h.node,
    ⟨h.leads, (hstays.ending?_eq hnode).trans h.leads⟩, by rw [hheard, h.told]⟩

theorem Persists.of_engine {news : List Notice} (h : p.engine.Persists q.engine news)
    (hheard : q.heard = p.heard ++ news) : p.Persists q where
  stays := h.stays
  status := h.status
  node := h.node
  quiet := by rw [hheard, endings_append, h.quiet, List.append_nil]

/-- One request that does not open. -/
theorem ends_or_persists (h : Reachable s p.engine)
    (hopens : r.opens → ∃ failure, Procedure.perform now r p = .error failure p) :
    Reachable s (p.after now r).engine ∧
      ((r = .call .advance ∧ ∃ ending, p.Ends now ending (p.after now r)) ∨
        p.Persists (p.after now r)) := by
  rcases p.after_eq_or_ok now r with hsame | ⟨answer, hok⟩
  · rw [hsame]
    exact ⟨h, .inr (.refl p)⟩
  · have hnot : r.opens = false := by
      by_contra hopen
      obtain ⟨failure, herror⟩ := hopens (by simpa using hopen)
      rw [hok] at herror
      cases herror
    generalize p.after now r = q at hok ⊢
    obtain ⟨news, hresponse, hheard⟩ := of_perform hok
    refine ⟨?_, (h.paced.ends_or_persists hnot hresponse).imp ?_ ?_⟩
    · cases r with
      | call c => exact .call h (Engine.call_of_respond hresponse)
      | load text => cases hnot
    · rintro ⟨rfl, ending, hends⟩
      obtain ⟨rfl, -⟩ := Outcome.of_response hresponse
      exact ⟨rfl, ending, .of_engine hends hok hheard⟩
    · exact fun hpersists => .of_engine hpersists hheard

/-- Once the chapter has ended, nothing but a request that opens makes a difference to that. -/
theorem persists_of_ended (h : Reachable s p.engine) (hended : p.engine.run.status = .ended)
    (hopens : p.OpensNothing requests) {done : List (Int64 × Request)} (hdone : done <+: requests) :
    p.Persists (p.afterAll done) := by
  induction requests generalizing p done with
  | nil =>
    rw [List.prefix_nil.1 hdone]
    exact .refl p
  | cons first rest ih =>
    cases done with
    | nil => exact .refl p
    | cons first' done =>
      obtain ⟨rfl, hrest⟩ := List.cons_prefix_cons.1 hdone
      obtain ⟨hreachable, ⟨-, ending, hends⟩ | hpersists⟩ := ends_or_persists h hopens.1
      · have hplaying := hends.playing
        simp [hended] at hplaying
      · exact hpersists.trans
          (ih hreachable (hpersists.status.trans hended) hopens.2 hrest)

/-- What persists at the end of a chapter is at rest. -/
theorem Persists.rests (h : p.Persists q) (hended : p.engine.run.status = .ended)
    (hleads : p.engine.ending? = some ending) : p.Rests ending q := by
  have hnode := h.node hended
  have hstatus := h.status.trans hended
  refine ⟨hstatus, ⟨hnode, h.stays.currentNode?_eq hnode⟩, (h.stays.ending?_eq hnode).trans hleads,
    h.quiet, fun now c hc => ?_⟩
  have hhindrance : q.engine.hindrance? = some .chapterEnded := by
    simp [Engine.hindrance?, hstatus]
  rw [Procedure.perform_eq]
  rcases hc with rfl | ⟨index, rfl⟩
  · simp [Engine.respond, Engine.advance, hhindrance, Outcome.response, Procedure.settle]
  · simp [Engine.respond, Engine.choose, hhindrance, Outcome.response, Procedure.settle]

/-- What comes before the end of a chapter, if it comes to one with these requests. -/
theorem without_end_or_ends (h : Reachable s p.engine) (hopens : p.OpensNothing requests) :
    p.WithoutEnd requests ∨
    ∃ before now later ending q, requests = before ++ (now, .call .advance) :: later ∧
      p.WithoutEnd before ∧ (p.afterAll before).Ends now ending q ∧
      ∀ done, done <+: later → q.Rests ending (q.afterAll done) := by
  induction requests generalizing p with
  | nil =>
    refine .inl fun done hdone => ?_
    rw [List.prefix_nil.1 hdone]
    exact ⟨rfl, rfl⟩
  | cons first rest ih =>
    obtain ⟨now, r⟩ := first
    obtain ⟨hreachable, ⟨rfl, ending, hends⟩ | hpersists⟩ := ends_or_persists h hopens.1
    · refine .inr ⟨[], now, rest, ending, _, rfl, fun done hdone => ?_, hends, fun done hdone => ?_⟩
      · rw [List.prefix_nil.1 hdone]
        exact ⟨rfl, rfl⟩
      · exact (persists_of_ended hreachable hends.ended hopens.2 hdone).rests hends.ended
          hends.leads.2
    · have hcons {requests : List (Int64 × Request)}
          (hlater : (p.after now r).WithoutEnd requests) : p.WithoutEnd ((now, r) :: requests) := by
        intro done hdone
        cases done with
        | nil => exact ⟨rfl, rfl⟩
        | cons first done =>
          obtain ⟨rfl, hrest⟩ := List.cons_prefix_cons.1 hdone
          exact (hlater done hrest).imp (·.trans hpersists.status) (·.trans hpersists.quiet)
      rcases ih hreachable hopens.2 with
        hnone | ⟨before, time, later, ending, q, rfl, hbefore, hrest⟩
      · exact .inl (hcons hnone)
      · exact .inr ⟨(now, r) :: before, time, later, ending, q, rfl, hcons hbefore, hrest⟩

/-! ## What an observer hears of ends -/

theorem Ends.after_eq (h : p.Ends now ending q) : p.after now (.call .advance) = q := by
  rw [after, h.performed]

/-- Of an end an observer hears that the chapter and that the story has ended, in this order. -/
theorem Ends.heardBy_endings {k : Nat} (h : p.Ends now ending q) (hk : k < p.engine.observers) :
    heardBy k (endings q.heard) =
      heardBy k (endings p.heard) ++ [.chapterEnded ending, .storyEnded] := by
  have htold : endings q.heard = endings p.heard ++
      (p.engine.tell (.chapterEnded ending) ++ p.engine.tell .storyEnded) := by
    rw [h.heard]
    simp [endings_append, Engine.endings_tell, Event.isEnd]
  rw [htold, heardBy_append, heardBy_append, heardBy_tell hk, heardBy_tell hk]
  rfl

end Performance

/-! ## Main result -/

/-- From one request that opens to the next one, either nothing is told of an end, or one request
goes on at the end of the chapter. Then every observer hears once where it leads and once that the
story has ended, and the story rests there until something opens again. -/
theorem Reachable.chapter_ends_once {s : Story} {p : Performance} (h : Reachable s p.engine) :
    (∀ now r answer q, r.opens → Procedure.perform now r p = .ok answer q →
      endings q.heard = endings p.heard) ∧
    ∀ requests, p.OpensNothing requests →
      (p.WithoutEnd requests ∨
        ∃ before now later ending q, requests = before ++ (now, .call .advance) :: later ∧
          p.WithoutEnd before ∧ (p.afterAll before).Ends now ending q ∧
          ∀ done, done <+: later → q.Rests ending (q.afterAll done)) ∧
      ∀ k < p.engine.observers,
        heardBy k (endings (p.afterAll requests).heard) = heardBy k (endings p.heard) ∨
        ∃ ending, heardBy k (endings (p.afterAll requests).heard) =
          heardBy k (endings p.heard) ++ [.chapterEnded ending, .storyEnded] := by
  refine ⟨?opened, fun requests hopens => ?_⟩
  case opened =>
    intro now r answer q hopens hok
    obtain ⟨news, hresponse, hheard⟩ := Performance.of_perform hok
    have hopened := (Engine.opened_of_respond hopens hresponse).2
    rw [hheard, endings_append, hopened.quiet, List.append_nil]
  have hrun := Performance.without_end_or_ends h hopens
  refine ⟨hrun, fun k hk => ?_⟩
  rcases hrun with hnone | ⟨before, now, later, ending, q, rfl, hbefore, hends, hrests⟩
  · exact .inl (by rw [(hnone requests (List.prefix_refl _)).2])
  · have hall : p.afterAll (before ++ (now, .call .advance) :: later) = q.afterAll later := by
      rw [← hends.after_eq]
      exact List.foldl_append
    refine .inr ⟨ending, ?_⟩
    rw [hall, (hrests later (List.prefix_refl _)).quiet,
      hends.heardBy_endings (Performance.observers_afterAll hk before),
      (hbefore before (List.prefix_refl _)).2]

namespace Gallery

/-- Two observers watch the pictures at the way out. -/
def watched : Engine :=
  (({ story := { stages := [house] }, observers := 2 } : Engine).after 0 (.start none none)).after
    300 .poll

/-- The second picture comes after the chapter has ended. An observer hears of the end once, and the
story stays at the way out. -/
theorem chapter_ends_once_watched :
    let requests := [(300, .call .advance), (700, .call .poll), (800, .call .advance)]
    let all := (⟨watched, []⟩ : Performance).afterAll requests
    (∃ ending, heardBy 1 (endings all.heard) = [.chapterEnded ending, .storyEnded]) ∧
      all.engine.run.node = "exit" ∧ all.engine.run.scene.images.length = 1 := by
  intro requests all
  have hreachable : Reachable { stages := [house] } watched :=
    ((Reachable.fresh {} 2).after 0 (.start none none)).after 300 .poll
  have hopens : (⟨watched, []⟩ : Performance).OpensNothing requests := by
    simp [requests, Performance.OpensNothing, Request.opens, Call.startsAnew]
  obtain ⟨hrun, hheard⟩ := (Reachable.chapter_ends_once hreachable).2 requests hopens
  refine ⟨?_, by decide +kernel, by decide +kernel⟩
  rcases hheard 1 (by decide +kernel) with hnone | hone
  · have hsome : heardBy 1 (endings all.heard) ≠ heardBy 1 (endings []) := by decide +kernel
    exact absurd hnone hsome
  · exact hone

end Gallery
end BranchingStory
