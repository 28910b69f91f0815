import BranchingStory.Proofs.Continuing
import BranchingStory.Proofs.Firings
/-!
# Saving while the story waits

A save has no timers, so one that is made while an image comes in forgets that the story was to go
on. Nothing is lost by it: the node at which the story waits leads where the timer would have led,
so that going on by hand comes to what the timer would have done.
-/

namespace BranchingStory

namespace Engine

variable {e : Engine} {now : Int64}

/-! ## Letting more timers fire than are due -/

/-- Once no timer is due any more, it does not matter how many more might have fired. -/
theorem polled_of_le {most most' : Nat} (hle : most ≤ most')
    (hdone : (e.through (polled now most e)).timers.popDue now = none) :
    polled now most' e = polled now most e := by
  induction most generalizing e most' with
  | zero => exact polled_of_none hdone most'
  | succ most ih =>
    obtain ⟨more, rfl⟩ : ∃ more, most' = more + 1 := ⟨most' - 1, by omega⟩
    cases hdue : e.timers.popDue now with
    | none => rw [polled_of_none hdue, polled_of_none hdue]
    | some popped =>
      obtain ⟨action, timers⟩ := popped
      have hfired : e.through ({ e with timers }.fired now action) =
          { e with timers }.through ({ e with timers }.fired now action) := by
        cases action <;> rfl
      rw [polled_of_some hdue, through_append, hfired] at hdone
      rw [polled_of_some hdue, polled_of_some hdue, ih (Nat.le_of_succ_le_succ hle) hdone]

/-- It does not matter how many timers may fire, if all may that can. -/
theorem polled_eq (hnow : now ≠ Int64.maxValue) {most most' : Nat}
    (hmost : e.timers.outstanding now e.settings.maxAutoSteps ≤ most)
    (hmost' : e.timers.outstanding now e.settings.maxAutoSteps ≤ most') :
    polled now most e = polled now most' e := by
  have hdone {most : Nat} (hmost : e.timers.outstanding now e.settings.maxAutoSteps ≤ most) :
      (e.through (polled now most e)).timers.popDue now = none := by
    rw [through_polled]
    exact popDue_pollWithin hnow hmost
  rcases Nat.le_total most most' with hle | hle
  · exact (polled_of_le hle (hdone hmost)).symm
  · exact polled_of_le hle (hdone hmost')

/-! ## Going on by hand -/

variable {timer : Timer} {next : String}

/-- A timer that is due and the only one fires. -/
theorem popDue_of_only (honly : e.timers.live = [timer]) (hdue : timer.due ≤ now) :
    e.timers.popDue now = some (timer.action, (e.without timer).timers) := by
  have hlive : e.timers.due now = e.timers.live.filter (·.due ≤ now) := by
    simp [Timers.due, Timers.live, List.filter_filter, Bool.and_comm]
  refine Timers.popDue_of_first? ?_
  simp [hlive, honly, hdue, Timers.first?]

theorem live_without_only (honly : e.timers.live = [timer]) :
    (e.without timer).timers.live = [] := by
  have hlive : (e.without timer).timers.live = e.timers.live.erase timer := Timers.live_erase ..
  rw [hlive, honly, List.erase_cons_head]

/-- Where the story waits, going on leads where the timer for it does. -/
theorem advancing_without (hpaced : e.Paced) (honly : e.timers.live = [timer])
    (haction : timer.action = .moveOn next) :
    (e.without timer).advancing now = .ok ((e.without timer).going now (some next)) := by
  have hmem : timer ∈ e.timers.live := honly ▸ List.mem_singleton_self timer
  obtain ⟨hplaying, n, d, hnode, hd, -, -, hnext⟩ := hpaced.heldBack timer hmem next haction
  have hfree : (e.without timer).hindrance? = none := by
    refine hindrance?_eq_none.2 ⟨hplaying, ?_⟩
    rw [Timers.transitionPending, live_without_only honly]
    rfl
  have hcurrent : (e.without timer).currentNode? = some n := hnode
  have htype : n.type = .image := by
    rw [Node.type, Node.directive?_eq_some.1 hd]
    rfl
  unfold advancing
  simp only [hfree, hcurrent, htype, hnext]

/-- A poll at which the story goes on takes the course of going on by hand and of a poll after that.
-/
theorem courses_of_waiting (hpaced : e.Paced) (honly : e.timers.live = [timer])
    (haction : timer.action = .moveOn next) (hdue : timer.due ≤ now)
    (hnow : now ≠ Int64.maxValue) :
    ∃ later rest,
      e.course now .poll =
        .ok ⟨⟨e, none, none⟩, ⟨e.without timer, none, some next⟩ :: later ++ rest⟩ ∧
      (e.without timer).course now .advance =
        .ok ⟨⟨e.without timer, none, some next⟩, later⟩ ∧
      ((e.without timer).through later).course now .poll =
        .ok ⟨⟨(e.without timer).through later, none, none⟩, rest⟩ := by
  have hpop := popDue_of_only honly hdue
  rw [haction] at hpop
  generalize hafter : (e.without timer).fire now (.moveOn next) = after
  have hwent : (e.without timer).through ((e.without timer).wentTo now next) = after :=
    (through_wentTo ..).trans hafter
  have hfewer : after.timers.outstanding now e.settings.maxAutoSteps <
        e.timers.outstanding now e.settings.maxAutoSteps ∧
      after.settings = e.settings := by
    rw [← hafter]
    exact outstanding_fire_lt hnow hpop
  have hlimit := e.outstanding_le_pollLimit now
  obtain ⟨most, hmost⟩ : ∃ most, e.pollLimit = most + 1 :=
    Nat.exists_eq_succ_of_ne_zero (by omega)
  -- the rest of the poll may let as many timers fire as a poll of its own
  have hrest : polled now most after = polled now after.pollLimit after := by
    refine polled_eq hnow ?_ (after.outstanding_le_pollLimit now)
    rw [hfewer.2]
    omega
  have hpolled : polled now e.pollLimit e =
      (e.without timer).fired now (.moveOn next) ++ polled now most after := by
    rw [hmost, ← hwent]
    exact polled_of_some hpop most
  refine ⟨(e.without timer).wentTo now next, polled now after.pollLimit after, ?_,
    advancing_without hpaced honly haction, ?_⟩
  · change Except.ok (Course.mk _ (polled now e.pollLimit e)) = _
    rw [hpolled, hrest]
    rfl
  · rw [hwent]
    rfl

/-- A call that is answered leads to the engine of which the rest is asked. -/
theorem exists_of_play {c : Call} {rest : List (Int64 × Call)} {answer : Answer}
    {answers : List (Except Refusal Answer)}
    (h : (e.play ((now, c) :: rest)).1 = .ok answer :: answers) :
    ∃ e', e.call now c = .ok (answer, e') ∧
      (e.play ((now, c) :: rest)).2 = (e'.play rest).2 := by
  obtain ⟨hanswer, -⟩ := List.cons.inj h
  have hlast : (e.play ((now, c) :: rest)).2 = ((e.after now c).play rest).2 := rfl
  rw [hlast, after]
  cases hcall : e.call now c with
  | error refusal =>
    rw [hcall] at hanswer
    cases hanswer
  | ok answered =>
    rw [hcall] at hanswer
    cases hanswer
    exact ⟨answered.2, rfl, rfl⟩

/-- A poll at which the story goes on ends as going on by hand and a poll after that do, and serial
numbers do not run out there either. -/
theorem play_without (hpaced : e.Paced) (honly : e.timers.live = [timer])
    (haction : timer.action = .moveOn next) (hdue : timer.due ≤ now)
    (hnow : now ≠ Int64.maxValue) (hsteady : e.Steadily [(now, .poll)]) :
    (e.without timer).Steadily [(now, .advance), (now, .poll)] ∧
      ∃ count, (e.without timer).play [(now, .advance), (now, .poll)] =
        ([.ok .done, .ok (.fired count)], (e.poll now).engine) := by
  obtain ⟨later, rest, hpoll, hadvance, hagain⟩ :=
    courses_of_waiting hpaced honly haction hdue hnow
  have hafter : (e.without timer).after now .advance = (e.without timer).through later :=
    after_of_course hadvance
  have hlast : (e.poll now).engine = ((e.without timer).through later).through rest := by
    have hengine : (e.poll now).engine = e.after now .poll := rfl
    rw [hengine, after_of_course hpoll]
    exact through_append ..
  obtain ⟨-, hmoments⟩ := List.isChain_cons_cons.1 (hsteady.1 _ hpoll)
  obtain ⟨hfirst, hsecond⟩ :=
    isChain_counters_append (R := (· ≤ ·)) (x := e.without timer) rfl hmoments
  have hplay (x : Engine) : x.play [(now, .advance), (now, .poll)] =
      ([(x.call now .advance).map (·.1), ((x.after now .advance).call now .poll).map (·.1)],
        (x.after now .advance).after now .poll) := rfl
  refine ⟨⟨fun course hcourse => ?_, fun course hcourse => ?_, trivial⟩,
    (rest.filter (·.entered.isNone)).length, ?_⟩
  · cases hadvance.symm.trans hcourse
    exact hfirst
  · rw [hafter] at hcourse
    cases hagain.symm.trans hcourse
    exact hsecond
  · rw [hplay, call_of_course hadvance, hafter, call_of_course hagain, after_of_course hagain,
      hlast]
    rfl

/-! ## The save of a story that waits -/

variable {late : Timer → Prop}

/-- A save of an engine that waits is one of the engine that does not wait any more. -/
theorem Staged.snapshot_without (h : e.Staged late) (honly : e.timers.live = [timer])
    (haction : timer.action = .moveOn next) :
    (e.without timer).Staged late ∧
      ∀ savedAt, (e.without timer).snapshot savedAt = e.snapshot savedAt := by
  have htimers : e.timers.timers = [timer] := h.timers.live_eq ▸ honly
  have hquiet := live_without_only honly
  have hstaged : (e.without timer).Staged late := by
    refine h.of_timers_sublist List.erase_sublist fun t ht serial hremoves => ?_
    rw [htimers, List.mem_singleton] at ht
    rw [ht, haction] at hremoves
    cases hremoves
  have hpending : e.timers.pending = [.moveOn next] := by
    rw [Timers.pending, honly, List.mergeSort_singleton, List.map_singleton, haction]
  have hsettled : (e.without timer).settledScene = e.settledScene := by
    have hrun : e.timers.pending.foldlM Scene.afterTimer (e.run.scene, e.imageCounter) =
        .ok (e.run.scene, e.imageCounter) := by
      rw [hpending]
      rfl
    have hscene : e.settledScene = .ok e.run.scene.dropExiting :=
      h.settledScene_eq_ok.2 ⟨_, hrun, rfl⟩
    have hkept : e.run.scene.dropExiting = e.run.scene := h.dropExiting_settled hrun
    rw [settledScene_of_quiet hquiet (hstaged.stays_of_quiet hquiet), hscene, hkept]
    rfl
  refine ⟨hstaged, fun savedAt => ?_⟩
  unfold snapshot
  rw [hsettled]
  rfl

end Engine

/-! ## Main result -/

/-- A save that is made while the story waits for an image loses nothing but the wait, if its
numbers read back as themselves. A new engine that has loaded it goes on when it is asked to, and a
poll leads it where it would have led without the save, but for times and serial numbers. -/
theorem Run.advances_after_load {s : Story} {log : List Node} {e : Engine} (h : Run s log e)
    {timer : Timer} {next : String} (honly : e.timers.live = [timer])
    (haction : timer.action = .moveOn next) (hdepth : ∀ v ∈ e.run.store.held, v.depth ≤ 100)
    (savedAt : Int64) :
    ((e.save savedAt).isOk ↔ e.run.Totals savedAt) ∧
    ∀ p, e.snapshot savedAt = .ok p →
      (∀ x ∈ p.toJson.reals, Json.reread? x = some (.real x)) →
      ∀ (observers : Nat) (loadedAt : Int64), ∃ loaded heard, e.save savedAt = .ok p.text ∧
        Engine.load { story := s, settings := e.settings, observers } loadedAt p.text =
          .ok (loaded, heard) ∧
        ∀ now, timer.due ≤ now → now < Int64.maxValue → e.Steadily [(now, .poll)] →
          ∃ resumed, loaded.call now .advance = .ok (.done, resumed) ∧
            ∃ renamed, (e.poll now).engine.Matches renamed (resumed.poll now).engine := by
  have hstill : ∀ t ∈ e.timers.live, t.action.brings = false := by
    simp [honly, haction, Deferred.brings]
  refine ⟨Engine.isOk_save_of_still hstill, fun p hsaved hreals observers loadedAt => ?_⟩
  have hshallow : ∀ v ∈ e.run.store.held, v.depth ≤ 124 :=
    fun v hv => Nat.le_trans (hdepth v hv) (by decide)
  have hload := Engine.load_save_of_reread hsaved hshallow hreals
    { story := s, settings := e.settings, observers } loadedAt
  have hsave : e.save savedAt = .ok p.text := Engine.save_eq_ok.2 ⟨p, hsaved, rfl⟩
  obtain ⟨hwithout, hsnapshot⟩ := h.staged.snapshot_without honly haction
  have hwithoutSaved : (e.without timer).snapshot savedAt = .ok p :=
    (hsnapshot savedAt).trans hsaved
  obtain ⟨hstaged, g, hguise, horders⟩ := hwithout.exists_guise h.reachable.paced.idle
    (Engine.live_without_only honly) hwithoutSaved observers loadedAt
  have hstory : (e.without timer).story = s := h.reachable.story_eq
  have hsettings : (e.without timer).settings = e.settings := rfl
  rw [hstory, hsettings] at hstaged hguise horders
  refine ⟨_, _, hsave, hload, fun now hdue hnow hsteady => ?_⟩
  have hend : now ≠ Int64.maxValue := fun heq => Int64.lt_irrefl (heq ▸ hnow)
  obtain ⟨hsteadily, count, hplay⟩ :=
    Engine.play_without h.reachable.paced honly haction hdue hend hsteady
  clear hsaved hreals hload hsave hwithoutSaved
  generalize Engine.resume _ loadedAt p = loaded at hstaged hguise horders ⊢
  rw [← hguise] at hsteadily hplay
  obtain ⟨hsteadily', hanswers, g', -, -, horders', hlast⟩ :=
    Engine.play_recast horders hsteadily
  have hanytime : loaded.Staged fun _ => True := hstaged.imp fun _ _ => trivial
  have hmatches := Engine.matches_recast horders' (Engine.staged_play hanytime hsteadily')
  rw [← hlast, hplay] at hmatches
  rw [hplay] at hanswers
  obtain ⟨resumed, hadvance, hresumed⟩ := Engine.exists_of_play hanswers.symm
  rw [hresumed] at hmatches
  exact ⟨resumed, hadvance, g'.serial, hmatches⟩

/-- The gallery is saved while the first picture is coming in. -/
theorem Gallery.opening_advances_after_load :
    ∃ text loaded heard, opening.save 100 = .ok text ∧
      ({ story } : Engine).load 200 text = .ok (loaded, heard) ∧
      ∃ resumed, loaded.call 300 .advance = .ok (.done, resumed) ∧
        ∃ renamed, swapping.Matches renamed (resumed.poll 300).engine := by
  have honly : opening.timers.live = [⟨300, 1, 1, .moveOn "dusk"⟩] := by decide +kernel
  have hdepth : ∀ v ∈ opening.run.store.held, v.depth ≤ 100 := by decide +kernel
  obtain ⟨p, hsaved, hreals⟩ := exists_snapshot_opening
  have hsteady : opening.Steadily [(300, .poll)] :=
    Engine.steadily_of_proceeds
      (by decide +kernel : opening.proceeds 300 .poll [dusk, label]) trivial
  obtain ⟨-, hsaves⟩ := Run.advances_after_load run_opening honly rfl hdepth 100
  obtain ⟨loaded, heard, hsave, hload, hadvances⟩ := hsaves p hsaved hreals 0 200
  exact ⟨p.text, loaded, heard, hsave, hload, hadvances 300 (by decide) (by decide) hsteady⟩

namespace Product

/-- A picture that comes in while the story waits. -/
def picture : Node :=
  { id := "d", next := some "e"
    kind := .image (some { picture :=
      { path := "p.png", slot := ⟨"wall", 0⟩, effect := some .fadeIn, duration := some 300 } }) }

def there : Node := { id := "e", text := some "there", kind := .dialogue }

/-- A story that multiplies two numbers before it waits. -/
def waitingStory (x y : Float) : Story where
  stages := [{
    id := "s"
    chapters := [{ id := "c", nodes := [start, multiplication y, picture, there] }] }]
  declared := [.ofValue "x" "x" (.number x)]

/-- The product has been computed, and the story waits. -/
def waiting (x y : Float) : Engine :=
  ({ story := waitingStory x y } : Engine).after 0 (.start none none)

/-- Without the condition on numbers a save that is made while the story waits loses more than the
wait: the product of 0.2 and 0.7 is written in full and read as 0.14. -/
theorem not_advances_after_load :
    ¬ ∀ (s : Story) (log : List Node) (e : Engine) (timer : Timer) (next : String)
        (savedAt loadedAt now : Int64) (text : String), Run s log e →
      e.timers.live = [timer] → timer.action = .moveOn next →
      (∀ v ∈ e.run.store.held, v.depth ≤ 100 ∧ ∀ x ∈ v.numbers, (Binary64.ofFloat? x).isSome) →
      timer.due ≤ now → now < Int64.maxValue → e.Steadily [(now, .poll)] →
      e.save savedAt = .ok text → ∃ loaded heard,
        Engine.load { story := s, settings := e.settings } loadedAt text = .ok (loaded, heard) ∧
        ∃ resumed, loaded.call now .advance = .ok (.done, resumed) ∧
          ∃ renamed, (e.poll now).engine.Matches renamed (resumed.poll now).engine := by
  intro h
  have hrun : Run (waitingStory 0.2 0.7) _ (waiting 0.2 0.7) :=
    (Run.fresh {} 0).after (by decide +kernel :
      Engine.proceeds _ 0 (.start none none) [start, multiplication 0.7, picture])
  have honly : (waiting 0.2 0.7).timers.live = [⟨300, 1, 1, .moveOn "e"⟩] := by decide +kernel
  have hvalues : ∀ v ∈ (waiting 0.2 0.7).run.store.held,
      v.depth ≤ 100 ∧ ∀ x ∈ v.numbers, (Binary64.ofFloat? x).isSome := by decide +kernel
  have hsteady : (waiting 0.2 0.7).Steadily [(300, .poll)] :=
    Engine.steadily_of_proceeds
      (by decide +kernel : (waiting 0.2 0.7).proceeds 300 .poll [there]) trivial
  have hsaves : ((waiting 0.2 0.7).snapshot 0).map (fun p =>
      (p.toJson.readable Json.maxDepth,
        (Playthrough.form.read (p.toJson.withReals Json.rereadReal)).map fun q =>
          ((Engine.resume { story := waitingStory 0.2 0.7, settings := (waiting 0.2 0.7).settings }
            300 q).play [(300, .advance), (300, .poll)]).2.run.store.get? "x")) =
      .ok (true, .ok (some (.number 0.14))) := by decide +kernel
  obtain ⟨p, hsaved, hboth⟩ := map_eq_ok.1 hsaves
  obtain ⟨hreadable, hread⟩ := Prod.mk.inj hboth
  have hbefore : ((waiting 0.2 0.7).poll 300).engine.run.store.get? "x" ≠ some (.number 0.14) := by
    decide +kernel
  have hadvances := h _ _ _ _ _ 0 300 300 p.text hrun honly rfl hvalues (by decide) (by decide)
    hsteady (Engine.save_eq_ok.2 ⟨p, hsaved, rfl⟩)
  generalize waiting 0.2 0.7 = e at hadvances hread hbefore
  generalize waitingStory 0.2 0.7 = s at hadvances hread
  obtain ⟨loaded, heard, hload, resumed, hadvance, renamed, hmatches⟩ := hadvances
  obtain ⟨q, hq, rfl⟩ := Engine.of_load hload
  have hparse := p.parse_text
  rw [if_pos hreadable] at hparse
  rw [hparse.symm.trans hq] at hread
  have hafter : ((Engine.resume { story := s, settings := e.settings } 300 q).play
      [(300, .advance), (300, .poll)]).2.run.store.get? "x" = some (.number 0.14) :=
    Except.ok.inj hread
  generalize Engine.resume _ 300 q = loaded at hadvance hafter
  have hresumed : loaded.after 300 .advance = resumed := by rw [Engine.after, hadvance]
  have hplayed : (loaded.play [(300, .advance), (300, .poll)]).2 =
      ((loaded.after 300 .advance).poll 300).engine := rfl
  have hstores : (e.poll 300).engine.run.store = (resumed.poll 300).engine.run.store := by
    have hsame := congrArg Playthrough.store hmatches.run
    exact hsame
  rw [hplayed, hresumed] at hafter
  rw [hstores] at hbefore
  exact hbefore hafter

end Product

end BranchingStory
