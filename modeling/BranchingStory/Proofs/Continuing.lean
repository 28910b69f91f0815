import BranchingStory.Proofs.Guises
/-!
# Playing on after a load

An engine with no timers is its own save in another guise: only serial numbers, the numbers of
timers and times differ. So whatever is asked of it and of a new engine that has loaded its save,
both answer the same and stay the same, as long as the numbers in the save read back as themselves.
-/

namespace BranchingStory

namespace Engine

/-- What is answered to calls that are made one after the other, each at its time, and the engine
after them. -/
def play (e : Engine) : List (Int64 × Call) → List (Except Refusal Answer) × Engine
  | [] => ([], e)
  | (now, c) :: rest =>
    let (answers, last) := (e.after now c).play rest
    ((e.call now c).map (·.1) :: answers, last)

/-- Whether the serial numbers never run out while calls are made. -/
def Steadily (e : Engine) : List (Int64 × Call) → Prop
  | [] => True
  | (now, c) :: rest =>
    (∀ course, e.course now c = .ok course → course.Steady) ∧ (e.after now c).Steadily rest

/-- Two engines in the same state but for times and for serial numbers, which come in the same
order. -/
structure Matches (renamed : UInt64 → UInt64) (e r : Engine) : Prop where
  run : e.run = { r.run with
    scene := ⟨r.run.scene.images.map fun i => { i with serial := renamed i.serial }⟩
    startedAt := e.run.startedAt
    playTime := e.run.playTime }
  timers : e.timers.live.map (fun t => (t.due, t.action)) =
    r.timers.live.map fun t => (t.due, t.action.renamed renamed)
  ordered : ∀ m n, m < n → n ≤ r.imageCounter → renamed m < renamed n
  images : ∀ i ∈ r.run.scene.images, i.serial ≤ r.imageCounter
  removals : ∀ t ∈ r.timers.live, ∀ serial, t.action = .removeImage serial →
    serial ≤ r.imageCounter

/-! ## Calls in another guise -/

variable {g : Guise} {e : Engine}

theorem Alike.steady {course' course : Course} (h : Alike g course'.moments course.moments)
    (hsome : g.base.isSome) (hsteady : course'.Steady) : course.Steady := by
  obtain ⟨hmoments, hfits⟩ := h
  obtain ⟨base, hbase⟩ := Option.isSome_iff_exists.1 hsome
  unfold Course.Steady at hsteady ⊢
  rw [hmoments, List.isChain_map] at hsteady
  refine hsteady.imp_of_mem_imp fun a b ha hb hle => ?_
  change a.engine.imageCounter + g.shift ≤ b.engine.imageCounter + g.shift at hle
  rw [UInt64.le_iff_toNat_le, UInt64.toNat_add, UInt64.toNat_add,
    Nat.mod_eq_of_lt (hfits a ha base hbase).2, Nat.mod_eq_of_lt (hfits b hb base hbase).2] at hle
  exact UInt64.le_iff_toNat_le.2 (Nat.le_of_add_le_add_right hle)

theorem Alike.later {course' course : Course} (h : Alike g course'.moments course.moments) :
    course'.opening = course.opening.recast g ∧ Alike g course'.later course.later := by
  obtain ⟨hmoments, hfits⟩ := h
  obtain ⟨hopening, hlater⟩ := List.cons.inj hmoments
  exact ⟨hopening, hlater, fun m hm => hfits m (.tail _ hm)⟩

theorem Alike.final {course' course : Course} (h : Alike g course'.moments course.moments) :
    course'.final = course.final.recast g ∧ g.Fits course.final.imageCounter := by
  obtain ⟨hopening, hlater⟩ := h.later
  unfold Course.final
  rw [hopening]
  exact ⟨hlater.through course.opening.engine, hlater.fits_through (h.2 _ (.head _))⟩

theorem Alike.answer {course' course : Course} (h : Alike g course'.moments course.moments)
    (c : Call) : course'.answer c = course.answer c := by
  obtain ⟨-, hlater, -⟩ := h.later
  unfold Course.answer
  rw [hlater, List.filter_map, List.length_map]
  rfl

/-- Whatever is asked of an engine, it answers the same in another guise. -/
theorem play_alike (hfits : g.Fits e.imageCounter) {calls : List (Int64 × Call)}
    (hsteady : g.base.isSome → (e.recast g).Steadily calls) :
    (g.base.isSome → e.Steadily calls) ∧ ((e.recast g).play calls).1 = (e.play calls).1 ∧
      ∃ g' : Guise, g'.Continues g ∧ g'.Fits (e.play calls).2.imageCounter ∧
        ((e.recast g).play calls).2 = (e.play calls).2.recast g' := by
  induction calls generalizing e g with
  | nil => exact ⟨fun _ => trivial, rfl, g, .refl g, hfits, rfl⟩
  | cons first rest ih =>
    obtain ⟨now, c⟩ := first
    have hrest (hsome : g.base.isSome) := (hsteady hsome).2
    have halike : CourseAlike g ((e.recast g).course now c) (e.course now c) :=
      course_alike hfits c
    unfold play Steadily
    rw [call_eq_course, call_eq_course]
    obtain ⟨refusal, hc', hc⟩ | ⟨course', course, hc', hc, halike⟩ := halike.cases
    · rw [after_of_refused hc'] at hrest ⊢
      rw [hc', after_of_refused hc, hc]
      obtain ⟨hsteady', hanswers, hlast⟩ := ih hfits hrest
      refine ⟨fun hsome => ⟨fun course hcourse => ?_, hsteady' hsome⟩,
        congrArg (List.cons _) hanswers, hlast⟩
      cases hcourse
    · have hcourse' (hsome : g.base.isSome) : course'.Steady := (hsteady hsome).1 course' hc'
      obtain ⟨g', hguise, hmoments⟩ := halike (Guise.steadies_of_steady hcourse')
      obtain ⟨hfinal, hfits'⟩ := hmoments.final
      rw [after_of_course hc', hfinal, ← hguise.base] at hrest
      rw [hc', after_of_course hc', hc, after_of_course hc, hfinal]
      obtain ⟨hsteady', hanswers, g'', hguise', hlast⟩ := ih hfits' hrest
      rw [hguise.base] at hsteady'
      refine ⟨fun hsome => ⟨fun other hother => ?_, hsteady' hsome⟩, ?_, g'',
        hguise'.trans hguise, hlast⟩
      · cases hother
        exact hmoments.steady (hguise.base ▸ hsome) (hcourse' hsome)
      · exact congrArg₂ List.cons (congrArg Except.ok (hmoments.answer c)) hanswers

/-- In a guise that keeps the order of serial numbers, they do not run out in one engine if they do
not in the other. -/
theorem play_recast (hfits : g.Orders e.imageCounter) {calls : List (Int64 × Call)}
    (hsteady : (e.recast g).Steadily calls) :
    e.Steadily calls ∧ ((e.recast g).play calls).1 = (e.play calls).1 ∧
      ∃ g' : Guise, g'.base = g.base ∧ g'.shift = g.shift ∧
        g'.Orders (e.play calls).2.imageCounter ∧
        ((e.recast g).play calls).2 = (e.play calls).2.recast g' := by
  obtain ⟨hsteady', hanswers, g', hguise, hfits', hlast⟩ := play_alike hfits.2 fun _ => hsteady
  exact ⟨hsteady' hfits.1, hanswers, g', hguise.base, hguise.shift,
    ⟨hguise.base ▸ hfits.1, hfits'⟩, hlast⟩

/-- Images and timers belong together after any calls. -/
theorem staged_play {calls : List (Int64 × Call)} (he : e.Staged fun _ => True)
    (hsteady : e.Steadily calls) : (e.play calls).2.Staged fun _ => True := by
  induction calls generalizing e with
  | nil => exact he
  | cons first rest ih =>
    obtain ⟨now, c⟩ := first
    obtain ⟨hcourses, hrest⟩ := hsteady
    refine ih ?_ hrest
    cases hc : e.course now c with
    | error refusal => rwa [after_of_refused hc]
    | ok course =>
      obtain ⟨m, hm, hfinal⟩ := course.exists_final
      rw [after_of_course hc, ← hfinal]
      exact staged_course hc (hcourses course hc) (fun _ _ => trivial) he m hm

/-! ## Engines and their saves -/

/-- An engine in another guise is in the same state but for times and serial numbers. -/
theorem matches_recast (hfits : g.Orders e.imageCounter) (he : e.Staged fun _ => True) :
    (e.recast g).Matches g.serial e where
  run := rfl
  timers := by
    have hlive : (e.recast g).timers.live = e.timers.live.map (·.recast g e.timers.epoch) :=
      Timers.live_recast ..
    rw [hlive, List.map_map]
    rfl
  ordered m n hlt hn := Guise.serial_lt_serial hfits hn hlt
  images := he.scene.counted
  removals t ht serial haction := by
    rw [he.timers.live_eq] at ht
    exact (he.removal t ht serial haction).1

/-- Without timers nothing is on its way out. -/
theorem Staged.stays_of_quiet {late : Timer → Prop} (h : e.Staged late)
    (hquiet : e.timers.live = []) : ∀ i ∈ e.run.scene.images, i.exiting = false := by
  intro i hi
  refine Bool.eq_false_iff.2 fun hexiting => ?_
  obtain ⟨t, ht, -⟩ := h.removed i hi hexiting
  rw [← h.timers.live_eq, hquiet] at ht
  exact absurd ht List.not_mem_nil

/-- Of two engines without timers, in the same state but for times, one is the other in another
guise, unless its counter or the number of its last timer is smaller. -/
theorem exists_recast {r : Engine} (hstory : r.story = e.story)
    (hsettings : r.settings = e.settings)
    (hrun : { r.run with startedAt := e.run.startedAt, playTime := e.run.playTime } = e.run)
    (he : e.timers.timers = []) (hr : r.timers.timers = [])
    (hnumber : r.timers.lastNumber ≤ e.timers.lastNumber)
    (hcounter : r.imageCounter ≤ e.imageCounter)
    (hcounted : ∀ i ∈ r.run.scene.images, i.serial ≤ r.imageCounter) :
    ∃ g : Guise, r.recast g = e ∧ g.Orders r.imageCounter := by
  have hshift : (e.imageCounter - r.imageCounter).toNat =
      e.imageCounter.toNat - r.imageCounter.toNat := UInt64.toNat_sub_of_le _ _ hcounter
  have hsmall := e.imageCounter.toNat_lt
  rw [UInt64.le_iff_toNat_le] at hcounter
  have hroom : r.imageCounter.toNat + (e.imageCounter - r.imageCounter).toNat < UInt64.size := by
    rw [hshift]
    simp only [UInt64.size]
    omega
  let g : Guise := {
    base := some r.imageCounter
    shift := e.imageCounter - r.imageCounter
    number := e.timers.lastNumber - r.timers.lastNumber
    epoch := e.timers.epoch
    observers := e.observers
    startedAt := fun _ => e.run.startedAt
    playTime := fun _ => e.run.playTime
    room := fun b hb => Option.some.inj hb ▸ hroom }
  refine ⟨g, ?_, rfl, fun b hb => Option.some.inj hb ▸ ⟨UInt64.le_refl _, hroom⟩⟩
  have himages : r.run.scene.images.map (·.recast g) = r.run.scene.images := by
    refine (List.map_congr_left fun i hi => ?_).trans (List.map_id _)
    have hserial : g.serial i.serial = i.serial := if_pos (hcounted i hi)
    unfold StageImage.recast
    rw [hserial]
    rfl
  have htimers : r.timers.recast g = e.timers := by
    unfold Timers.recast
    rw [hr, List.map_nil, ← he, Nat.add_sub_of_le hnumber]
  have hadd : r.imageCounter + g.shift = e.imageCounter := by
    rw [UInt64.add_comm]
    exact UInt64.sub_add_cancel ..
  unfold recast Scene.recast
  rw [himages, htimers, hadd, hstory, hsettings]
  exact congrArg (fun run => { e with run }) hrun

end Engine

/-- An engine without timers is, in another guise, a new one that has taken up its save. -/
theorem Engine.Staged.exists_guise {late : Timer → Prop} {e : Engine} (h : e.Staged late)
    (hidle : e.run.status = .idle → e.run.node = "") (hquiet : e.timers.live = [])
    {savedAt : Int64} {p : Playthrough} (hsaved : e.snapshot savedAt = .ok p) (observers : Nat)
    (now : Int64) :
    let fresh : Engine := { story := e.story, settings := e.settings, observers }
    let loaded := fresh.resume now p
    loaded.Staged (fun _ => False) ∧
      ∃ g : Guise, loaded.recast g = e ∧ g.Orders loaded.imageCounter := by
  intro fresh loaded
  have hsettled : e.settledScene = .ok e.run.scene :=
    Engine.settledScene_of_quiet hquiet (h.stays_of_quiet hquiet)
  have hscene : p.scene = e.run.scene := by
    obtain ⟨playTime, scene, -, hscene, rfl⟩ := Engine.snapshot_eq_ok.1 hsaved
    exact Except.ok.inj (hscene.symm.trans hsettled)
  have hloaded : loaded.Staged fun _ => False :=
    Engine.staged_resume fresh now (hscene ▸ h.scene)
  have hrun : loaded.run =
      { e.run with scene := p.scene, startedAt := now, playTime := p.playTime } :=
    Engine.run_resume hsaved hidle fresh now
  rw [hscene] at hrun
  have hcounter : loaded.imageCounter ≤ e.imageCounter := by
    have hraised : loaded.imageCounter = max 0 (loaded.run.scene.maxSerial?.getD 0) := rfl
    have hmax : e.run.scene.maxSerial?.getD 0 ≤ e.imageCounter :=
      UInt64.le_trans Std.right_le_max (UInt64.le_of_eq h.scene.max_counter)
    rw [hraised, hrun]
    exact (Std.LawfulOrderSup.max_le_iff ..).2 ⟨UInt64.le_iff_toNat_le.2 (Nat.zero_le _), hmax⟩
  refine ⟨hloaded, Engine.exists_recast rfl rfl ?_ ?_ rfl (Nat.zero_le _) hcounter
    hloaded.scene.counted⟩
  · rw [hrun]
  · exact h.timers.live_eq ▸ hquiet

theorem Run.exists_guise {s : Story} {log : List Node} {e : Engine} (h : Run s log e)
    (hquiet : e.timers.live = []) {now : Int64} {p : Playthrough}
    (hsaved : e.snapshot now = .ok p) (observers : Nat) :
    let fresh : Engine := { story := s, settings := e.settings, observers }
    let loaded := fresh.resume now p
    loaded.Staged (fun _ => False) ∧
      ∃ g : Guise, loaded.recast g = e ∧ g.Orders loaded.imageCounter := by
  rw [← h.reachable.story_eq]
  exact h.staged.exists_guise h.reachable.paced.idle hquiet hsaved observers now

/-- What goes through goes through without serial numbers running out. -/
theorem Engine.steadily_of_proceeds {e : Engine} {now : Int64} {c : Call} {entered : List Node}
    {rest : List (Int64 × Call)} (h : e.proceeds now c entered)
    (hrest : (e.after now c).Steadily rest) : e.Steadily ((now, c) :: rest) := by
  refine ⟨fun course hcourse => ?_, hrest⟩
  obtain ⟨course', hcourse', -, hsteady, -⟩ := of_proceeds h
  obtain rfl : course' = course := Except.ok.inj (hcourse'.symm.trans hcourse)
  exact hsteady

/-! ## Main result -/

/-- A new engine that has loaded the save of one without timers plays on as that one does, if the
numbers in the save read back as themselves: both answer the same to whatever calls are made at the
same times, and end in the same state, with the same timers, but for times and for serial numbers,
which stay in their order. -/
theorem Run.loaded_plays_on {s : Story} {log : List Node} {e : Engine} (h : Run s log e)
    (hquiet : e.timers.live = []) (hdepth : ∀ v ∈ e.run.store.held, v.depth ≤ 100) (now : Int64) :
    ((e.save now).isOk ↔ e.run.Totals now) ∧
    ∀ p, e.snapshot now = .ok p →
      (∀ x ∈ p.toJson.reals, Json.reread? x = some (.real x)) →
      ∀ observers, ∃ loaded heard, e.save now = .ok p.text ∧
        Engine.load { story := s, settings := e.settings, observers } now p.text =
          .ok (loaded, heard) ∧
        ∃ renamed : UInt64 → UInt64, ∀ calls, e.Steadily calls →
          (e.play calls).1 = (loaded.play calls).1 ∧
            (e.play calls).2.Matches renamed (loaded.play calls).2 := by
  have hstill : ∀ t ∈ e.timers.live, t.action.brings = false := by simp [hquiet]
  refine ⟨Engine.isOk_save_of_still hstill, fun p hsaved hreals observers => ?_⟩
  have hshallow : ∀ v ∈ e.run.store.held, v.depth ≤ 124 :=
    fun v hv => Nat.le_trans (hdepth v hv) (by decide)
  have hload := Engine.load_save_of_reread hsaved hshallow hreals
    { story := s, settings := e.settings, observers } now
  have hsave : e.save now = .ok p.text := Engine.save_eq_ok.2 ⟨p, hsaved, rfl⟩
  obtain ⟨hstaged, g, hguise, hfits⟩ := h.exists_guise hquiet hsaved observers
  refine ⟨_, _, hsave, hload, g.serial, fun calls hsteady => ?_⟩
  clear hsaved hreals hload hsave
  generalize Engine.resume _ now p = loaded at hstaged hguise hfits ⊢
  subst hguise
  obtain ⟨hsteady, hanswers, g', hbase, hshift, hfits', hlast⟩ :=
    Engine.play_recast hfits hsteady
  have hserial : g'.serial = g.serial := by
    funext n
    unfold Guise.serial
    rw [hbase, hshift]
  have hanytime : loaded.Staged fun _ => True := hstaged.imp fun _ _ => trivial
  rw [hlast, ← hserial]
  exact ⟨hanswers, Engine.matches_recast hfits' (Engine.staged_play hanytime hsteady)⟩

/-- The second picture is saved, and then the gallery is gone through once more. -/
theorem Gallery.hung_plays_on :
    ∃ text loaded heard, hung.save 700 = .ok text ∧
      ({ story } : Engine).load 700 text = .ok (loaded, heard) ∧
      (hung.play [(800, .restart), (1100, .poll)]).1 =
        (loaded.play [(800, .restart), (1100, .poll)]).1 := by
  have hquiet : hung.timers.live = [] := by decide +kernel
  have hdepth : ∀ v ∈ hung.run.store.held, v.depth ≤ 100 := by decide +kernel
  have hsaves : (hung.snapshot 700).map (·.toJson.reals) = .ok [75] := by decide +kernel
  obtain ⟨p, hsaved, hnumbers⟩ := map_eq_ok.1 hsaves
  have hreals : ∀ x ∈ p.toJson.reals, Json.reread? x = some (.real x) := by
    intro x hx
    rw [hnumbers] at hx
    rw [List.mem_singleton.1 hx]
    rfl
  have hsteady : hung.Steadily [(800, .restart), (1100, .poll)] :=
    Engine.steadily_of_proceeds (by decide +kernel : hung.proceeds 800 .restart [door, dawn])
      (Engine.steadily_of_proceeds
        (by decide +kernel : (hung.after 800 .restart).proceeds 1100 .poll [dusk, label]) trivial)
  obtain ⟨-, hsaves⟩ := Run.loaded_plays_on run_hung hquiet hdepth 700
  obtain ⟨loaded, heard, hsave, hload, renamed, hplays⟩ := hsaves p hsaved hreals 0
  exact ⟨p.text, loaded, heard, hsave, hload, (hplays _ hsteady).1⟩

/-- Without the condition on numbers an engine does not play on as its save does, not even when
nothing is asked of it: the product of 0.2 and 0.7 is written in full and read as 0.14. -/
theorem Product.not_loaded_plays_on :
    ¬ ∀ (s : Story) (log : List Node) (e : Engine) (now : Int64) (text : String),
      Run s log e → e.timers.live = [] →
      (∀ v ∈ e.run.store.held, v.depth ≤ 100 ∧ ∀ x ∈ v.numbers, (Binary64.ofFloat? x).isSome) →
      e.save now = .ok text → ∃ loaded heard,
        Engine.load { story := s, settings := e.settings } now text = .ok (loaded, heard) ∧
        ∃ renamed : UInt64 → UInt64, ∀ calls, e.Steadily calls →
          (e.play calls).1 = (loaded.play calls).1 ∧
            (e.play calls).2.Matches renamed (loaded.play calls).2 := by
  intro h
  have hrun : Run (story 0.2 0.7) _ (computed 0.2 0.7) :=
    (Run.fresh {} 0).after (by decide +kernel :
      Engine.proceeds _ 0 (.start none none) [start, multiplication 0.7, here])
  have hquiet : (computed 0.2 0.7).timers.live = [] := by decide +kernel
  have hvalues : ∀ v ∈ (computed 0.2 0.7).run.store.held,
      v.depth ≤ 100 ∧ ∀ x ∈ v.numbers, (Binary64.ofFloat? x).isSome := by decide +kernel
  have hsaves : ((computed 0.2 0.7).snapshot 0).map (fun p =>
      (p.toJson.readable Json.maxDepth,
        (Playthrough.form.read (p.toJson.withReals Json.rereadReal)).map (·.store.get? "x"))) =
      .ok (true, .ok (some (.number 0.14))) := by decide +kernel
  obtain ⟨p, hsaved, hboth⟩ := map_eq_ok.1 hsaves
  obtain ⟨hreadable, hread⟩ := Prod.mk.inj hboth
  have hbefore : (computed 0.2 0.7).run.store.get? "x" ≠ some (.number 0.14) := by decide +kernel
  have hloads := h _ _ _ 0 p.text hrun hquiet hvalues (Engine.save_eq_ok.2 ⟨p, hsaved, rfl⟩)
  generalize computed 0.2 0.7 = e at hloads hbefore
  obtain ⟨loaded, heard, hload, renamed, hplays⟩ := hloads
  obtain ⟨-, hmatches⟩ := hplays [] trivial
  obtain ⟨q, hq, rfl⟩ := Engine.of_load hload
  have hparse := p.parse_text
  rw [if_pos hreadable] at hparse
  have hsame : e.run.store = q.store := by
    have hstores := congrArg Playthrough.store hmatches.run
    exact hstores
  rw [hparse.symm.trans hq] at hread
  rw [hsame] at hbefore
  exact hbefore (Except.ok.inj hread)

end BranchingStory
