import BranchingStory.Proofs.Settling
import BranchingStory.Proofs.Transitions
/-!
# Loading what was saved

A save is a text, and its numbers are what stands in it. When every number of a save reads back as
itself, loading it takes the run up as it was, in any engine: all but the time at which it goes on,
and the images and timers, which are as if every timer for an image had fired.

Not every save can be loaded. An infinite number is written as `null`, which is no value, and the
reader takes lists only up to a depth that a story can go beyond.
-/

namespace BranchingStory

namespace Engine

variable {e : Engine} {savedAt : Int64} {p : Playthrough}

/-- A text that is a save is loaded. -/
theorem load_of_parse {text : String} (h : Playthrough.parse text = .ok p) (e : Engine)
    (now : Int64) : e.load now text = .ok (e.resume now p, (e.resume now p).notices true) := by
  unfold load
  rw [h]
  rfl

/-- A save whose numbers read back as themselves is loaded as what it was written from. -/
theorem load_save_of_reread (hsaved : e.snapshot savedAt = .ok p)
    (hdepth : ∀ v ∈ e.run.store.held, v.depth ≤ 124)
    (hreals : ∀ x ∈ p.toJson.reals, Json.reread? x = some (.real x)) (other : Engine)
    (now : Int64) :
    other.load now p.text = .ok (other.resume now p, (other.resume now p).notices true) := by
  rw [← store_of_snapshot hsaved] at hdepth
  exact load_of_parse (Playthrough.parse_text_of_reread hdepth hreals) other now

/-- Whether a text is loaded does not depend on the engine. -/
theorem isOk_load {now : Int64} {text : String} :
    (e.load now text).isOk ↔ (Playthrough.parse text).isOk := by
  unfold load
  cases Playthrough.parse text <;> exact Iff.rfl

/-- The playthrough taken up is the one that was saved, but for what has to do with time. -/
theorem run_resume (hsaved : e.snapshot savedAt = .ok p)
    (hidle : e.run.status = .idle → e.run.node = "") (other : Engine) (now : Int64) :
    (other.resume now p).run =
      { e.run with scene := p.scene, startedAt := now, playTime := p.playTime } := by
  obtain ⟨playTime, scene, -, hscene, rfl⟩ := snapshot_eq_ok.1 hsaved
  obtain ⟨settled, -, rfl⟩ := settledScene_eq_ok.1 hscene
  have hstatus : (if e.run.status = .idle ∧ e.run.node ≠ "" then .playing else e.run.status) =
      e.run.status := status_resume (p := e.run) hidle other now
  have hdropped : settled.1.dropExiting.dropExiting = settled.1.dropExiting := by
    unfold Scene.dropExiting Scene.keep
    simp
  unfold resume resumed
  dsimp only
  rw [hstatus, hdropped]

/-- A save made at once of what was loaded is the save that was loaded, taken up at its own time. -/
theorem save_resume (hsaved : e.snapshot savedAt = .ok p)
    (hidle : e.run.status = .idle → e.run.node = "") (other : Engine) (now : Int64) :
    (other.resume now p).save now = .ok ({ p with startedAt := now } : Playthrough).text := by
  have hrun := run_resume hsaved hidle other now
  have htimers : (other.resume now p).timers.live = [] := rfl
  have hnone : ∀ i ∈ (other.resume now p).run.scene.images, i.exiting = false := fun i hi => by
    simpa using (List.mem_filter.1 hi).2
  obtain ⟨playTime, scene, -, -, rfl⟩ := snapshot_eq_ok.1 hsaved
  generalize other.resume now _ = loaded at hrun htimers hnone
  have hscene := settledScene_of_quiet htimers hnone
  have htime : loaded.run.totalPlayTime now = .ok playTime := by
    have hsmall := playTime.toInt_lt
    rw [Playthrough.totalPlayTime_eq_ok, Playthrough.Totals, hrun]
    dsimp only
    omega
  rw [save_of_settledScene hscene, htime, hrun]
  rfl

end Engine

/-- The first picture is coming in, and the numbers of the save read back as themselves. -/
theorem Gallery.exists_snapshot_opening : ∃ p, opening.snapshot 100 = .ok p ∧
    ∀ x ∈ p.toJson.reals, Json.reread? x = some (.real x) := by
  have hsaves : (opening.snapshot 100).map (·.toJson.reals) = .ok [75, 0.5] := by decide +kernel
  obtain ⟨p, hsaved, hnumbers⟩ := map_eq_ok.1 hsaves
  refine ⟨p, hsaved, ?_⟩
  intro x hx
  rw [hnumbers] at hx
  rcases List.mem_pair.1 hx with rfl | rfl <;> rfl

/-! ## Main results -/

/-- A save is made where the time played is in range and there are serial numbers for the images
still to come. If its numbers read back as themselves, every engine can load it at any time, and
goes on with the run that was saved, from now on and with the images of the save; saved again at
once, the text is the same but for the time from which it goes on. -/
theorem Reachable.load_save {s : Story} {e : Engine} (h : Reachable s e)
    (hdepth : ∀ v ∈ e.run.store.held, v.depth ≤ 100) (savedAt : Int64) :
    ((e.save savedAt).isOk ↔ e.run.Totals savedAt ∧ e.CanSettle) ∧
    ∀ p, e.snapshot savedAt = .ok p →
      (∀ x ∈ p.toJson.reals, Json.reread? x = some (.real x)) →
      ∀ (other : Engine) (now : Int64), ∃ loaded heard,
        e.save savedAt = .ok p.text ∧ other.load now p.text = .ok (loaded, heard) ∧
        loaded.run = { e.run with scene := p.scene, startedAt := now, playTime := p.playTime } ∧
        e.run.totalPlayTime savedAt = .ok p.playTime ∧
        (∀ i ∈ loaded.run.scene.images, i.exiting = false ∧ i.serial ≤ loaded.imageCounter) ∧
        loaded.timers.live = [] ∧
        loaded.save now = .ok ({ p with startedAt := now } : Playthrough).text := by
  refine ⟨Engine.isOk_save, fun p hsaved hreals other now => ?_⟩
  have hidle := h.paced.idle
  have hshallow : ∀ v ∈ e.run.store.held, v.depth ≤ 124 :=
    fun v hv => Nat.le_trans (hdepth v hv) (by decide)
  have htime : e.run.totalPlayTime savedAt = .ok p.playTime := by
    obtain ⟨playTime, scene, htime, -, rfl⟩ := Engine.snapshot_eq_ok.1 hsaved
    exact htime
  refine ⟨_, _, Engine.save_eq_ok.2 ⟨p, hsaved, rfl⟩,
    Engine.load_save_of_reread hsaved hshallow hreals other now,
    Engine.run_resume hsaved hidle other now, htime, fun i hi => ⟨?_, ?_⟩, rfl,
    Engine.save_resume hsaved hidle other now⟩
  · simpa using (List.mem_filter.1 hi).2
  · exact UInt64.le_trans (Scene.serial_le_maxSerial hi) Std.right_le_max

namespace Gallery

/-- The save is made while the first picture is coming in. -/
theorem load_save_opening :
    ∃ (p : Playthrough) (loaded : Engine) (heard : List Notice),
      opening.save 100 = .ok p.text ∧ p.playTime = 100 ∧
      ({ story } : Engine).load 1000 p.text = .ok (loaded, heard) ∧
      loaded.run = { opening.run with scene := p.scene, startedAt := 1000, playTime := 100 } := by
  have hdepth : ∀ v ∈ opening.run.store.held, v.depth ≤ 100 := by decide +kernel
  have htotal : opening.run.totalPlayTime 100 = .ok 100 := by decide +kernel
  obtain ⟨p, hsaved, hreals⟩ := exists_snapshot_opening
  obtain ⟨-, hloads⟩ := Reachable.load_save run_opening.reachable hdepth 100
  obtain ⟨loaded, heard, hsave, hload, hrun, htime, -⟩ := hloads p hsaved hreals { story } 1000
  have hplayed : p.playTime = 100 := Except.ok.inj (htime.symm.trans htotal)
  exact ⟨p, loaded, heard, hsave, hplayed, hload, hplayed ▸ hrun⟩

/-- Started before the time zero, the story has no save at the end of time. -/
theorem not_load_save :
    ¬ ∀ (s : Story) (e other : Engine) (now savedAt : Int64), Reachable s e → other.story = s →
      (∀ v ∈ e.run.store.held, v.depth ≤ 100 ∧ ∀ x ∈ v.numbers, (Binary64.ofFloat? x).isSome) →
      (∀ p, e.snapshot savedAt = .ok p →
        ∀ x ∈ p.toJson.reals, Json.reread? x = some (.real x)) →
      ∃ text, e.save savedAt = .ok text ∧ (other.load now text).isOk := by
  intro h
  have hreachable : Reachable story (({ story } : Engine).after (-1) (.start none none)) :=
    (Reachable.fresh {} 0).after (-1) _
  have hsave : (({ story } : Engine).after (-1) (.start none none)).snapshot Int64.maxValue =
      .error .subtraction := by decide +kernel
  have hvalues : ∀ v ∈ (({ story } : Engine).after (-1) (.start none none)).run.store.held,
      v.depth ≤ 100 ∧ ∀ x ∈ v.numbers, (Binary64.ofFloat? x).isSome := by decide +kernel
  generalize ({ story } : Engine).after (-1) (.start none none) = e at hreachable hsave hvalues
  obtain ⟨text, htext, -⟩ := h _ e { story } 0 Int64.maxValue hreachable rfl hvalues
    fun p hp => by cases hsave.symm.trans hp
  rw [Engine.save_eq_map, hsave] at htext
  cases htext

end Gallery

/-- A save that is made can be loaded just when the lists in it are not nested too deep, the numbers
of its values are finite, and no number is written as a numeral too large to be read. -/
theorem Engine.isOk_load_save (e : Engine) (savedAt : Int64) :
    ((e.save savedAt).isOk ↔ e.run.Totals savedAt ∧ e.CanSettle) ∧
    ∀ p, e.snapshot savedAt = .ok p → e.save savedAt = .ok p.text ∧
      ∀ (other : Engine) (now : Int64), (other.load now p.text).isOk ↔
        (∀ v ∈ e.run.store.held, v.depth ≤ 124 ∧ ∀ x ∈ v.numbers, (Binary64.ofFloat? x).isSome) ∧
          ∀ x ∈ p.toJson.reals, (Json.reread? x).isSome := by
  refine ⟨isOk_save, fun p hsaved => ⟨save_eq_ok.2 ⟨p, hsaved, rfl⟩, fun other now => ?_⟩⟩
  rw [isOk_load, ← store_of_snapshot hsaved]
  exact Playthrough.isOk_parse_text p

/-- What was saved while the first picture was coming in can be loaded. -/
theorem Gallery.isOk_load_save_opening :
    ∃ text, opening.save 100 = .ok text ∧ (({ story } : Engine).load 1000 text).isOk := by
  have hvalues : ∀ v ∈ opening.run.store.held,
      v.depth ≤ 124 ∧ ∀ x ∈ v.numbers, (Binary64.ofFloat? x).isSome := by decide +kernel
  obtain ⟨p, hsaved, hreals⟩ := exists_snapshot_opening
  obtain ⟨-, hloads⟩ := Engine.isOk_load_save opening 100
  obtain ⟨hsave, hload⟩ := hloads p hsaved
  refine ⟨p.text, hsave, (hload { story } 1000).2 ⟨hvalues, ?_⟩⟩
  intro x hx
  rw [hreals x hx]
  rfl

namespace Product

def start : Node := { id := "a", next := some "b", kind := .start }

def multiplication (y : Float) : Node :=
  { id := "b", next := some "d", kind := .operations [.withValue "x" .multiply (.number y)] }

def here : Node := { id := "d", text := some "here", kind := .dialogue }

/-- A story that multiplies two numbers. -/
def story (x y : Float) : Story where
  stages := [{ id := "s", chapters := [{ id := "c", nodes := [start, multiplication y, here] }] }]
  declared := [.ofValue "x" "x" (.number x)]

/-- The product has been computed. -/
def computed (x y : Float) : Engine := ({ story := story x y } : Engine).after 0 (.start none none)

/-- The product of two finite numbers may be infinite, and then the save cannot be loaded. -/
theorem not_isOk_load_save :
    ¬ ∀ (s : Story) (e other : Engine) (now savedAt : Int64) (text : String), Reachable s e →
      other.story = s → e.save savedAt = .ok text → (other.load now text).isOk := by
  intro h
  have hreachable : Reachable (story 1e308 10) (computed 1e308 10) :=
    (Reachable.fresh {} 0).after 0 _
  have hsaves : ((computed 1e308 10).snapshot 0).map (·.store) =
      .ok (computed 1e308 10).run.store := by decide +kernel
  have hinfinite : ¬ ∀ v ∈ (computed 1e308 10).run.store.held,
      ∀ x ∈ v.numbers, (Binary64.ofFloat? x).isSome := by decide +kernel
  obtain ⟨p, hsaved, hstore⟩ := map_eq_ok.1 hsaves
  have hload := h _ _ { story := story 1e308 10 } 0 0 p.text hreachable rfl
    (Engine.save_eq_ok.2 ⟨p, hsaved, rfl⟩)
  rw [Engine.isOk_load, Playthrough.isOk_parse_text] at hload
  rw [← hstore] at hinfinite
  exact hinfinite fun v hv => (hload.1 v hv).2

end Product

end BranchingStory
