import BranchingStory.Proofs.Continuing
/-!
# Starting anew

A start forgets whatever went before it. The engine is then a new one in another guise: the serial
numbers of images go on from where they were, and so do the numbers of timers and epochs, but
nothing that is asked of it can tell the difference. Where a story is being played it can always be
started anew, for it is then in a chapter that is there.
-/

namespace BranchingStory

namespace Engine

/-- Two engines in the same state, but for serial numbers that are larger by a shift. -/
structure Shifted (shift : UInt64) (e f : Engine) : Prop where
  run : e.run = { f.run with
    scene := ⟨f.run.scene.images.map fun i => { i with serial := i.serial + shift }⟩ }
  timers : e.timers.live.map (fun t => (t.due, t.action)) =
    f.timers.live.map fun t => (t.due, t.action.renamed (· + shift))
  counter : e.imageCounter = f.imageCounter + shift

/-- An engine that is not idle is in a chapter of its story. -/
def Located (e : Engine) : Prop := e.run.status ≠ .idle → e.currentChapter?.isSome

end Engine

/-! ## The chapter that is played -/

theorem Follows.located {now : Int64} {a b : Moment} (h : Follows now a b)
    (ha : a.engine.Located) : b.engine.Located := by
  rcases h with hentered | hfired
  · obtain ⟨hchapter, honward, hnode⟩ := hentered
    rename_i chapter id n
    obtain ⟨store, backlog, scene, timers, imageCounter, hframe⟩ :=
      (a.engine.atNode id).enter_frame now n
    rw [hframe]
    exact ha
  · cases hfired <;> exact ha

theorem Opens.located {e : Engine} {now : Int64} {c : Call} {a : Moment} (h : Opens e now c a)
    (he : e.Located) : a.engine.Located := by
  cases h with
  | anew _ _ _ _ _ _ hchapter => exact fun _ => Option.isSome_of_eq_some hchapter
  | movedInto _ _ _ _ _ _ _ hchapter => exact fun _ => Option.isSome_of_eq_some hchapter
  | advance => exact he
  | finish hfree =>
    have hplaying := (Engine.hindrance?_eq_none.1 hfree).1
    exact fun _ => he (by simp [hplaying])
  | choose => exact he
  | poll => exact he

theorem Reachable.located {s : Story} {e : Engine} (h : Reachable s e) : e.Located := by
  induction h with
  | fresh settings observers => exact fun hidle => absurd rfl hidle
  | call _ h ih =>
    obtain ⟨course, hcourse, rfl⟩ := Engine.course_of_call h
    obtain ⟨m, hm, hfinal⟩ := course.exists_final
    have hopening := (Engine.course_opens hcourse).1.located ih
    rw [← hfinal]
    exact Engine.course_keeps (I := fun m => m.engine.Located) hcourse hopening
      (fun _ _ => Follows.located) m hm
  | load he hsaved hsave h _ ihsaved =>
    rename_i e saved _ now savedAt text heard _
    obtain ⟨settled, store, scene, playTime, -, -, rfl⟩ := Engine.of_load_save hsave h
    have hstatus := Engine.status_resume (p := { saved.run with store, scene, playTime })
      hsaved.paced.idle e now
    intro hidle
    have hchapter := ihsaved fun hsavedIdle => hidle (hstatus.trans hsavedIdle)
    have hstory : e.story = saved.story := he.story_eq.trans hsaved.story_eq.symm
    unfold Engine.currentChapter? at hchapter ⊢
    rw [← hstory] at hchapter
    exact hchapter

/-- A chapter that is there is found by the ids of its stage and its own. -/
theorem Story.resolve_of_chapter? {s : Story} {stage chapter : String}
    (h : (s.chapter? stage chapter).isSome) :
    ∃ found, s.resolve (some stage) (some chapter) = .ok found := by
  obtain ⟨inside, hinside⟩ := Option.isSome_iff_exists.1 h
  obtain ⟨found, hfound, hin⟩ := Option.bind_eq_some_iff.1 hinside
  refine ⟨(found, inside), ?_⟩
  simp only [resolve, hfound, Option.elim_some]
  change (found.chapter? chapter).elim (Except.error _) Except.ok >>= _ = _
  rw [hin]
  rfl

/-- Where a story is being played, or was, it can be started anew in the same chapter. -/
theorem Engine.Located.restart {e : Engine} (h : e.Located) (hidle : e.run.status ≠ .idle)
    (now : Int64) : ∃ outcome, e.restart now = .ok outcome ∧
      e.start now (some e.run.stage) (some e.run.chapter) = .ok outcome := by
  obtain ⟨found, hfound⟩ := Story.resolve_of_chapter? (h hidle)
  have hrestart : e.restart now = e.start now (some e.run.stage) (some e.run.chapter) :=
    if_neg hidle
  rw [hrestart]
  unfold start
  rw [hfound]
  exact ⟨_, rfl, rfl⟩

/-! ## A new engine in another guise -/

/-- The guise in which a new engine is one that was played before and starts anew. -/
def Guise.played (e : Engine) : Guise where
  base := none
  shift := e.imageCounter
  number := e.timers.lastNumber
  epoch := e.timers.epoch + 1
  observers := e.observers
  startedAt := id
  playTime := id
  room := nofun

namespace Engine

variable {g : Guise} {e : Engine}

/-- In a guise that changes no times and shifts all serial numbers, they are shifted. -/
theorem shifted_recast (hbase : g.base = none) (hstarted : g.startedAt = id)
    (hplayed : g.playTime = id) : (e.recast g).Shifted g.shift e := by
  have hserial : g.serial = (· + g.shift) := funext (Guise.serial_of_none g hbase)
  refine ⟨?_, ?_, rfl⟩
  · unfold recast Scene.recast
    rw [hstarted, hplayed]
    unfold StageImage.recast
    rw [hserial]
    rfl
  · have hlive : (e.recast g).timers.live = e.timers.live.map (·.recast g e.timers.epoch) :=
      Timers.live_recast ..
    rw [hlive, List.map_map, ← hserial]
    rfl

/-- An engine that starts anew takes the course of a new one in another guise. -/
theorem starting_as_new (e : Engine) (observers : Nat) (now : Int64)
    (stage chapter : Option String) :
    let fresh : Engine := { story := e.story, settings := e.settings, observers }
    CourseAlike (.played e) (e.starting now stage chapter)
      (fresh.starting now stage chapter) := by
  intro fresh
  have hresolve : fresh.story.resolve stage chapter = e.story.resolve stage chapter := rfl
  unfold starting
  rw [hresolve]
  cases e.story.resolve stage chapter with
  | error what => rfl
  | ok found =>
    obtain ⟨st, ch⟩ := found
    have hanew : (fresh.anew now st ch).recast (.played e) = e.anew now st ch := by
      simp [fresh, anew, recast, Guise.played, Timers.recast, Timers.nextEpoch, Scene.recast]
    intro hsteady
    refine ⟨.played e, .refl _, ?_⟩
    rw [← hanew] at hsteady ⊢
    exact beginning_alike (Guise.fits_of_none _ rfl _) hsteady

/-- Two engines that take a call alike go on alike, whatever is asked of them. All serial numbers
are shifted, so it does not matter whether they run out. -/
theorem CourseAlike.play {first : Engine} {now : Int64} {c : Call} (hbase : g.base = none)
    (h : CourseAlike g (first.course now c) (e.course now c)) (hok : (first.call now c).isOk)
    (calls : List (Int64 × Call)) :
    (first.play ((now, c) :: calls)).1 = (e.play ((now, c) :: calls)).1 ∧
      ∃ g' : Guise, g'.Continues g ∧
        (first.play ((now, c) :: calls)).2 = (e.play ((now, c) :: calls)).2.recast g' := by
  unfold Engine.play
  rw [call_eq_course] at hok ⊢
  rw [call_eq_course]
  obtain ⟨refusal, hc, -⟩ | ⟨course, course', hc, hc', halike⟩ := h.cases
  · rw [hc] at hok
    cases hok
  · have hnone (g' : Guise) (hguise : g'.Continues g) : ¬ g'.base.isSome := by
      rw [hguise.base, hbase]
      exact Bool.false_ne_true
    obtain ⟨g', hguise, hmoments⟩ :=
      halike (Guise.steadies_of_steady fun hsome => absurd hsome (hnone g (.refl g)))
    obtain ⟨hfinal, hfits⟩ := hmoments.final
    have hsteady (hsome : g'.base.isSome) : (course'.final.recast g').Steadily calls :=
      absurd hsome (hnone g' hguise)
    obtain ⟨-, hanswers, g'', hguise', -, hlast⟩ := play_alike hfits hsteady
    rw [after_of_course hc, after_of_course hc', hc, hc', hfinal]
    exact ⟨congrArg₂ List.cons (congrArg Except.ok (hmoments.answer c)) hanswers, g'',
      hguise'.trans hguise, hlast⟩

end Engine

/-! ## Main result -/

/-- Nothing leaks from an earlier run into the one that is started: it is started or refused as by a
new engine, and from then on both answer the same and stay in the same state, but for serial
numbers, which are larger by what the counter was. A story that was started can always be restarted.
-/
theorem Reachable.starts_as_new {s : Story} {e : Engine} (h : Reachable s e) (observers : Nat)
    (now : Int64) (stage chapter : Option String) :
    let fresh : Engine := { story := s, settings := e.settings, observers }
    let start := Call.start stage chapter
    (e.call now start).map (·.1) = (fresh.call now start).map (·.1) ∧
    ((e.call now start).isOk → ∀ calls,
      (e.play ((now, start) :: calls)).1 = (fresh.play ((now, start) :: calls)).1 ∧
      (e.play ((now, start) :: calls)).2.Shifted e.imageCounter
        (fresh.play ((now, start) :: calls)).2) ∧
    (e.run.status ≠ .idle → ∀ later, ∃ outcome, e.restart later = .ok outcome ∧
      e.start later (some e.run.stage) (some e.run.chapter) = .ok outcome) := by
  intro fresh start
  have halike : Engine.CourseAlike (.played e) (e.course now start) (fresh.course now start) := by
    have hstarting := e.starting_as_new observers now stage chapter
    rwa [h.story_eq] at hstarting
  refine ⟨?_, fun hok calls => ?_, h.located.restart⟩
  · rw [Engine.call_eq_course, Engine.call_eq_course]
    obtain ⟨refusal, hc, hc'⟩ | ⟨course, course', hc, hc', -⟩ := halike.cases
    · rw [hc, hc']
    · rw [hc, hc']
      rfl
  · obtain ⟨hanswers, g, hguise, hlast⟩ := halike.play rfl hok calls
    have hshifted (last : Engine) : (last.recast g).Shifted g.shift last :=
      Engine.shifted_recast hguise.base (hguise.startedAt rfl) (hguise.playTime rfl)
    rw [hguise.shift] at hshifted
    rw [hlast]
    exact ⟨hanswers, hshifted _⟩

/-- The gallery is started anew while the first picture is on its way out. -/
theorem Gallery.swapping_starts_as_new :
    (swapping.play [(500, .start none none), (800, .poll), (900, .advance)]).1 =
        (({ story } : Engine).play [(500, .start none none), (800, .poll), (900, .advance)]).1 ∧
      (swapping.play [(500, .start none none), (800, .poll)]).2.Shifted 1
        (({ story } : Engine).play [(500, .start none none), (800, .poll)]).2 ∧
      ∃ outcome, swapping.restart 500 = .ok outcome := by
  have hok : (swapping.call 500 (.start none none)).isOk := by decide +kernel
  have hcounter : swapping.imageCounter = 1 := by decide +kernel
  have hidle : swapping.run.status ≠ .idle := by decide +kernel
  obtain ⟨-, hplays, hrestarts⟩ := Reachable.starts_as_new run_swapping.reachable 0 500 none none
  obtain ⟨outcome, houtcome, -⟩ := hrestarts hidle 500
  rw [hcounter] at hplays
  exact ⟨(hplays hok _).1, (hplays hok _).2, outcome, houtcome⟩

end BranchingStory
