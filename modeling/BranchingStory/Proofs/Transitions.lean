import BranchingStory.Proofs.Documents
import BranchingStory.Proofs.Runs
/-!
# Waiting for a transition

An image may hold the story back. Then the engine is at the node that brought it, with one live
timer for going on, and neither goes on nor takes a choice before that timer has fired. On the way
through nodes that lead straight on there is no such timer, which is why there is never a second
one.
-/

namespace BranchingStory

namespace Engine

/-- The story is held back at the node that the engine is at, until a timer leads on. -/
structure HeldBack (e : Engine) (next : String) : Prop where
  playing : e.run.status = .playing
  image : ∃ n d, e.currentNode? = some n ∧ n.directive? = some d ∧ d.picture.hasEntrance ∧
    0 < d.picture.duration.getD 0 ∧ n.next? = some next

/-- An engine that waits for one timer at most, and then at the node that asks for it. One that has
not started is at no node. -/
structure Paced (e : Engine) : Prop where
  idle : e.run.status = .idle → e.run.node = ""
  single : (e.timers.live.filter (·.action.isTransition)).length ≤ 1
  heldBack : ∀ t ∈ e.timers.live, ∀ next, t.action = .moveOn next → e.HeldBack next

/-- An engine that can go on. -/
def Free (e : Engine) : Prop := e.run.status = .playing ∧ e.timers.transitionPending = false

theorem hindrance?_eq_none {e : Engine} : e.hindrance? = none ↔ e.Free := by
  unfold hindrance? Free
  cases e.run.status <;> simp

theorem Free.paced {e : Engine} (h : e.Free) : e.Paced where
  idle hidle := by simp [h.1] at hidle
  single := by
    have hnone := Timers.transitionPending_eq_false.1 h.2
    rw [List.filter_eq_nil_iff.2 fun t ht => by simp [hnone t ht]]
    exact Nat.zero_le 1
  heldBack t ht next haction := by
    have hnone := Timers.transitionPending_eq_false.1 h.2 t ht
    simp [haction, Deferred.isTransition] at hnone

/-! ## Directives -/

/-- Directives schedule no transitions. -/
theorem transitionPending_direct {e : Engine} {now : Int64} {node : String} {d : ImageDirective}
    (h : e.timers.transitionPending = false) :
    (e.direct now node d).timers.transitionPending = false := by
  have hcleared : (e.cleared d).timers.transitionPending = false := by
    rw [Timers.transitionPending_eq_false] at h ⊢
    intro t ht
    rw [cleared, Timers.live_cancel] at ht
    exact h t (List.mem_of_mem_filter ht)
  have hschedule {t : Timers} (due : Int64) {action : Deferred}
      (haction : action.isTransition = false) (ht : t.transitionPending = false) :
      (t.schedule due action).transitionPending = false := by
    simp_all [Timers.transitionPending]
  have hd := directs e now node d
  generalize e.direct now node d = after at hd
  cases hd with
  | empty => exact hcleared
  | bring => exact hcleared
  | replace => exact hcleared
  | exchange =>
    unfold exchange
    cases d.timing with
    | sequential => exact hschedule _ rfl (hschedule _ rfl hcleared)
    | crossfade => exact hschedule _ rfl hcleared

/-- Entering a node leaves the engine free, or held back at that node. -/
theorem enter_paced {e : Engine} {now : Int64} {n : Node} (hfree : e.Free)
    (hn : e.currentNode? = some n) :
    (e.enter now n).1.Paced ∧ ((e.enter now n).2.isSome → (e.enter now n).1.Free) := by
  have hdirect (d : ImageDirective) : (e.direct now n.id d).Free := by
    obtain ⟨scene, timers, imageCounter, hd⟩ := e.direct_frame now n.id d
    refine ⟨?_, transitionPending_direct hfree.2⟩
    rw [hd]
    exact hfree.1
  have hentered := enters e now n
  generalize e.enter now n = after at hentered
  cases hentered with
  | plain h store backlog onward =>
    have hafter : (e.told store backlog).Free := hfree
    exact ⟨hafter.paced, fun _ => hafter⟩
  | image d h store backlog onward =>
    have hafter : ((e.direct now n.id d).told store backlog).Free := hdirect d
    exact ⟨hafter.paced, fun _ => hafter⟩
  | wait d h next hnext hentrance hduration due hdue store backlog =>
    have hnone := Timers.transitionPending_eq_false.1 (hdirect d).2
    have hfilter : (e.direct now n.id d).timers.live.filter (·.action.isTransition) = [] :=
      List.filter_eq_nil_iff.2 fun t ht => by simp [hnone t ht]
    refine ⟨⟨?_, ?_, ?_⟩, by simp⟩
    · intro hidle
      have hplaying := (hdirect d).1
      exact absurd (hplaying.symm.trans hidle) (by decide)
    · change List.length (List.filter _ (Timers.schedule _ due (.moveOn next)).live) ≤ 1
      rw [Timers.live_schedule, List.filter_cons_of_pos rfl, hfilter]
      exact Nat.le_refl 1
    · intro t ht next' haction
      change t ∈ (Timers.schedule _ due (.moveOn next)).live at ht
      rw [Timers.live_schedule] at ht
      rcases List.mem_cons.1 ht with rfl | ht
      · cases haction
        obtain ⟨scene, timers, imageCounter, hd⟩ := e.direct_frame now n.id d
        rw [hd]
        exact ⟨hfree.1, n, d, hn, h, hentrance, hduration, hnext⟩
      · have hother := hnone t ht
        simp [haction, Deferred.isTransition] at hother

theorem enter_atNode_paced {e : Engine} {c : Chapter} {id : String} {n : Node}
    (hfree : e.Free) (hchapter : e.currentChapter? = some c) (now : Int64)
    (hn : c.node? id = some n) :
    ((e.atNode id).enter now n).1.Paced ∧
      (((e.atNode id).enter now n).2.isSome → ((e.atNode id).enter now n).1.Free) := by
  have hat : (e.atNode id).currentNode? = some n := by
    change e.currentChapter?.bind (·.node? id) = some n
    rw [hchapter]
    exact hn
  exact enter_paced (e := e.atNode id) hfree hat

end Engine

/-- A moment of a paced engine. Before it goes on to a node at once it is free. -/
def Moment.Paced (m : Moment) : Prop := m.engine.Paced ∧ (m.onward.isSome → m.engine.Free)

theorem Enters.paced {now : Int64} {a b : Moment} (h : Enters now a b) (ha : a.Paced) :
    b.Paced := by
  obtain ⟨hchapter, honward, hnode⟩ := h
  rename_i chapter id n
  exact Engine.enter_atNode_paced (ha.2 (by simp [honward])) hchapter now hnode

theorem Fires.paced {now : Int64} {a b : Moment} (h : Fires now a b) (ha : a.Paced) :
    b.Paced := by
  have hstays {timer : Timer} (scene : Scene) (imageCounter : UInt64) :
      Engine.Paced { a.engine with
        timers.timers := a.engine.timers.timers.erase timer
        run.scene := scene
        imageCounter } := by
    refine ⟨ha.1.idle, ?_, ?_⟩
    · rw [Timers.live_erase]
      refine Nat.le_trans (List.Sublist.length_le ?_) ha.1.single
      exact List.Sublist.filter _ List.erase_sublist
    · intro t ht next haction
      rw [Timers.live_erase] at ht
      obtain ⟨hplaying, himage⟩ := ha.1.heldBack t (List.mem_of_mem_erase ht) next haction
      exact ⟨hplaying, himage⟩
  cases h with
  | remove hdue =>
    obtain ⟨timer, -, -, -, rfl, -⟩ := Timers.of_popDue hdue
    exact ⟨hstays _ _, by simp⟩
  | bring hdue =>
    obtain ⟨timer, -, -, -, rfl, -⟩ := Timers.of_popDue hdue
    exact ⟨hstays _ _, by simp⟩
  | moveOn hdue =>
    obtain ⟨timer, hlive, -, haction, rfl, -⟩ := Timers.of_popDue hdue
    have hmem : timer ∈ a.engine.timers.live.filter (·.action.isTransition) :=
      List.mem_filter.2 ⟨hlive, by rw [haction]; rfl⟩
    have hrest : (a.engine.timers.live.erase timer).filter (·.action.isTransition) = [] := by
      rw [← List.erase_filter, ← List.length_eq_zero_iff, List.length_erase_of_mem hmem]
      have := ha.1.single
      omega
    have hfree : Engine.Free
        { a.engine with timers.timers := a.engine.timers.timers.erase timer } := by
      refine ⟨(ha.1.heldBack timer hlive _ haction).playing, ?_⟩
      rw [Timers.transitionPending_eq_false, Timers.live_erase]
      intro t ht
      simpa using List.filter_eq_nil_iff.1 hrest t ht
    exact ⟨hfree.paced, fun _ => hfree⟩

theorem Opens.paced {e : Engine} {now : Int64} {c : Call} {a : Moment} (h : Opens e now c a)
    (he : e.Paced) : a.Paced := by
  cases h with
  | anew _ hc stage chapter id onward hchapter =>
    have hfree : ((e.anew now stage chapter).atNode id).Free := ⟨rfl, rfl⟩
    exact ⟨hfree.paced, fun _ => hfree⟩
  | movedInto s t hidle stage chapter id onward hchapter =>
    have hfree : ((e.movedInto stage chapter).atNode id).Free := ⟨rfl, rfl⟩
    exact ⟨hfree.paced, fun _ => hfree⟩
  | advance hfree onward => exact ⟨he, fun _ => Engine.hindrance?_eq_none.1 hfree⟩
  | finish hfree n =>
    have hnone := Timers.transitionPending_eq_false.1 (Engine.hindrance?_eq_none.1 hfree).2
    refine ⟨⟨nofun, he.single, fun t ht next haction => ?_⟩, nofun⟩
    have hother := hnone t ht
    simp [haction, Deferred.isTransition] at hother
  | choose index hfree n c onward =>
    have hfree : (e.recordChoice now n index c).Free := Engine.hindrance?_eq_none.1 hfree
    exact ⟨hfree.paced, fun _ => hfree⟩
  | poll => exact ⟨he, nofun⟩

/-- A call leaves a paced engine paced. -/
theorem Engine.paced_final {e : Engine} {now : Int64} {c : Call} {course : Course}
    (h : e.course now c = .ok course) (he : e.Paced) : course.final.Paced := by
  have hpaced := course_keeps h ((course_opens h).1.paced he) fun a b hab ha =>
    hab.elim (·.paced ha) (·.paced ha)
  obtain ⟨m, hm, hfinal⟩ := course.exists_final
  rw [← hfinal]
  exact (hpaced m hm).1

/-- A playthrough taken up again is not idle, unless it is at no node. -/
theorem Engine.paced_resume (e : Engine) (now : Int64) (p : Playthrough)
    (hp : p.status = .idle → p.node = "") : (e.resume now p).Paced where
  idle hidle := hp ((status_resume hp e now).symm.trans hidle)
  single := Nat.zero_le 1
  heldBack _ ht := nomatch ht

theorem Reachable.paced {s : Story} {e : Engine} (h : Reachable s e) : e.Paced := by
  induction h with
  | fresh settings observers =>
    exact ⟨fun _ => rfl, Nat.zero_le 1, fun t ht => absurd ht List.not_mem_nil⟩
  | call _ h ih =>
    obtain ⟨course, hcourse, rfl⟩ := Engine.course_of_call h
    exact Engine.paced_final hcourse ih
  | load _ _ hsave h _ ihsaved =>
    obtain ⟨settled, store, scene, playTime, -, -, rfl⟩ := Engine.of_load_save hsave h
    exact Engine.paced_resume _ _ _ ihsaved.idle

/-! ## What is refused meanwhile -/

namespace Engine

/-- An engine that waits for a transition neither goes on nor takes a choice. -/
theorem refuses_of_transitionPending {e : Engine} (hplaying : e.run.status = .playing)
    (h : e.timers.transitionPending) (now : Int64) {c : Call}
    (hc : c = .advance ∨ ∃ index, c = .choose index) :
    e.call now c = .error .transitionPending ∧ e.after now c = e := by
  have hhindrance : e.hindrance? = some .transitionPending := by simp [hindrance?, hplaying, h]
  have hcall : e.call now c = .error .transitionPending := by
    rcases hc with rfl | ⟨index, rfl⟩
    · simp [call, advance, hhindrance, Except.map]
    · simp [call, choose, hhindrance, Except.map]
  exact ⟨hcall, by rw [after, hcall]⟩

/-- Only an engine that waits for a transition refuses because of one. -/
theorem transitionPending_of_refuses {e : Engine} {now : Int64} {c : Call}
    (hc : c = .advance ∨ ∃ index, c = .choose index)
    (h : e.call now c = .error .transitionPending) : e.timers.transitionPending := by
  have hcourse : e.course now c = .error .transitionPending := by
    rw [call_eq_course] at h
    cases hcourse : e.course now c with
    | error refusal =>
      rw [hcourse] at h
      cases h
      rfl
    | ok course =>
      rw [hcourse] at h
      cases h
  have hhindrance : e.hindrance? = some .transitionPending := by
    rcases hc with rfl | ⟨index, rfl⟩
    · change e.advancing now = _ at hcourse
      unfold advancing at hcourse
      grind
    · change e.choosing now index = _ at hcourse
      unfold choosing at hcourse
      grind
  unfold hindrance? at hhindrance
  cases hstatus : e.run.status <;> simp_all

end Engine

/-- In every reachable state the story waits for one transition at most. While it does, it is being
played and is at an image node whose image comes in with an effect that takes time, and the timer
leads to the node after that one; going on and choosing are refused and change nothing. Otherwise
neither is ever refused for that reason. -/
theorem Reachable.waits_at_image {s : Story} {e : Engine} (h : Reachable s e) :
    (e.timers.live.filter (·.action.isTransition)).length ≤ 1 ∧
    (∀ t ∈ e.timers.live, ∀ next, t.action = .moveOn next →
      e.run.status = .playing ∧
      (∃ n d, e.currentNode? = some n ∧ n.kind = .image (some d) ∧ d.picture.hasEntrance ∧
        0 < d.picture.duration.getD 0 ∧ n.next? = some next) ∧
      ∀ now c, (c = .advance ∨ ∃ index, c = .choose index) →
        e.call now c = .error .transitionPending ∧ e.after now c = e) ∧
    ((∀ t ∈ e.timers.live, t.action.isTransition = false) →
      ∀ now c, (c = .advance ∨ ∃ index, c = .choose index) →
        e.call now c ≠ .error .transitionPending) := by
  refine ⟨h.paced.single, fun t ht next haction => ?_, fun hnone now c hc hrefused => ?_⟩
  · obtain ⟨hplaying, n, d, hn, hd, hentrance, hduration, hnext⟩ :=
      h.paced.heldBack t ht next haction
    have hkind := Node.directive?_eq_some.1 hd
    have hpending : e.timers.transitionPending :=
      List.any_eq_true.2 ⟨t, ht, by rw [haction]; rfl⟩
    exact ⟨hplaying, ⟨n, d, hn, hkind, hentrance, hduration, hnext⟩, fun now c hc =>
      Engine.refuses_of_transitionPending hplaying hpending now hc⟩
  · have hpending := Engine.transitionPending_of_refuses hc hrefused
    rw [Timers.transitionPending_eq_false.2 hnone] at hpending
    cases hpending

/-- The first picture is coming in, and nothing can be asked of the story meanwhile. -/
theorem Gallery.waits_at_dawn :
    opening.call 100 .advance = .error .transitionPending ∧
      opening.after 100 .advance = opening := by
  have hlive : ⟨300, 1, 1, .moveOn "dusk"⟩ ∈ opening.timers.live := by decide +kernel
  obtain ⟨-, hwaits, -⟩ := Reachable.waits_at_image run_opening.reachable
  obtain ⟨-, -, hrefuses⟩ := hwaits _ hlive "dusk" rfl
  exact hrefuses 100 .advance (.inl rfl)

end BranchingStory
