import BranchingStory.Play.Saving
import BranchingStory.Proofs.Documents
/-!
# When there is a save

A save cannot be made of everything: the time played has to be in range, and there have to be serial
numbers for the images that are still to come.
-/

namespace BranchingStory

/-! ## The time played -/

/-- Whether the time since the start and the time played altogether are in range. -/
def Playthrough.Totals (p : Playthrough) (now : Int64) : Prop :=
  -2 ^ 63 ≤ now.toInt - p.startedAt.toInt ∧ now.toInt - p.startedAt.toInt < 2 ^ 63 ∧
    p.playTime.toInt + max (now.toInt - p.startedAt.toInt) 0 < 2 ^ 63

namespace Playthrough

variable {p : Playthrough} {now total : Int64}

instance (p : Playthrough) (now : Int64) : Decidable (p.Totals now) :=
  inferInstanceAs (Decidable (_ ∧ _ ∧ _))

/-- The time played altogether is the sum itself. -/
theorem totalPlayTime_eq_ok : p.totalPlayTime now = .ok total ↔
    p.Totals now ∧ total.toInt = p.playTime.toInt + max (now.toInt - p.startedAt.toInt) 0 := by
  have hsmall := p.playTime.le_toInt
  have hlarge := total.toInt_lt
  unfold Totals
  refine bind_eq_ok.trans ⟨?_, ?_⟩
  · rintro ⟨since, hsince, hsum⟩
    rw [differenceOf_eq_ok] at hsince
    rw [sumOf_eq_ok, toInt_max_zero, hsince] at hsum
    have hleast := since.le_toInt
    have hmost := since.toInt_lt
    omega
  · rintro ⟨⟨hleast, hmost, -⟩, hsum⟩
    have hsince : (Int64.ofInt (now.toInt - p.startedAt.toInt)).toInt =
        now.toInt - p.startedAt.toInt := Int64.toInt_ofInt_of_le hleast hmost
    refine ⟨_, differenceOf_eq_ok.2 hsince, ?_⟩
    rw [sumOf_eq_ok, toInt_max_zero, hsince]
    exact hsum

theorem isOk_totalPlayTime : (p.totalPlayTime now).isOk ↔ p.Totals now := by
  rw [isOk_iff]
  constructor
  · rintro ⟨total, htotal⟩
    exact (totalPlayTime_eq_ok.1 htotal).1
  · intro h
    have hsmall := p.playTime.le_toInt
    have hsum : (Int64.ofInt (p.playTime.toInt + max (now.toInt - p.startedAt.toInt) 0)).toInt =
        p.playTime.toInt + max (now.toInt - p.startedAt.toInt) 0 :=
      Int64.toInt_ofInt_of_le (by omega) h.2.2
    exact ⟨_, totalPlayTime_eq_ok.2 ⟨h, hsum⟩⟩

/-- With a clock that does not go backwards, the time played is in range if there is room for the
time since the start. -/
theorem totals_iff (hstart : 0 ≤ p.startedAt) (hnow : p.startedAt ≤ now) :
    p.Totals now ↔ p.playTime.toInt + (now.toInt - p.startedAt.toInt) < 2 ^ 63 := by
  rw [Int64.le_iff_toInt_le] at hstart hnow
  have hzero : (0 : Int64).toInt = 0 := rfl
  have hlarge := now.toInt_lt
  unfold Totals
  omega

end Playthrough

/-! ## Timers that bring images -/

/-- Whether a timer brings an image. -/
def Deferred.brings : Deferred → Bool
  | .showImage .. => true
  | _ => false

namespace Scene

variable {s : Scene} {counter : UInt64} {settled : Scene × UInt64}

/-- An image that comes gets the number after the last one, which has to be larger. -/
theorem afterTimer_showImage {node : String} {d : ImageDirective} :
    afterTimer (s, counter) (.showImage node d) = .ok settled ↔ counter < counter + 1 ∧
      settled = (s.place (.ofDirective node (counter + 1) d), counter + 1) := by
  have hlarge := counter.toNat_lt
  have hsum := toNat_add_one counter
  rw [UInt64.lt_iff_toNat_lt, hsum]
  refine bind_eq_ok.trans ⟨?_, ?_⟩
  · rintro ⟨serial, hserial, hsettled⟩
    rw [nextSerial_eq_ok] at hserial
    have hroom := serial.toNat_lt
    have hnext : serial = counter + 1 := by
      rw [← UInt64.toNat_inj, hsum]
      omega
    subst hnext
    exact ⟨by omega, (Except.ok.inj hsettled).symm⟩
  · rintro ⟨hroom, rfl⟩
    exact ⟨_, nextSerial_eq_ok.2 (by omega), rfl⟩

theorem foldlM_cons_eq_ok {action : Deferred} {rest : List Deferred} {now : Scene × UInt64} :
    (action :: rest).foldlM afterTimer now = .ok settled ↔
      ∃ next, afterTimer now action = .ok next ∧ rest.foldlM afterTimer next = .ok settled := by
  rw [List.foldlM_cons]
  exact bind_eq_ok

/-- Timers can do what they are for just when there are numbers for the images among them. -/
theorem exists_foldlM_afterTimer (s : Scene) (counter : UInt64) (actions : List Deferred) :
    (∃ settled, actions.foldlM afterTimer (s, counter) = .ok settled) ↔
      counter.toNat + (actions.filter (·.brings)).length < UInt64.size := by
  induction actions generalizing s counter with
  | nil => exact ⟨fun _ => counter.toNat_lt, fun _ => ⟨_, rfl⟩⟩
  | cons action rest ih =>
    cases action with
    | removeImage serial => exact ih (s.remove serial) counter
    | moveOn next => exact ih s counter
    | showImage node d =>
      have hlarge := counter.toNat_lt
      have hsum := toNat_add_one counter
      have hrest := ih (s.place (.ofDirective node (counter + 1) d)) (counter + 1)
      rw [List.filter_cons_of_pos rfl, List.length_cons]
      simp only [foldlM_cons_eq_ok, afterTimer_showImage]
      constructor
      · rintro ⟨settled, next, ⟨hroom, rfl⟩, hsettled⟩
        have hlater := hrest.1 ⟨settled, hsettled⟩
        rw [UInt64.lt_iff_toNat_lt] at hroom
        omega
      · intro hroom
        have hsize : UInt64.size = 2 ^ 64 := rfl
        obtain ⟨settled, hsettled⟩ := hrest.2 (by omega)
        exact ⟨settled, _, ⟨UInt64.lt_iff_toNat_lt.2 (by omega), rfl⟩, hsettled⟩

end Scene

/-! ## Saves -/

/-- Whether there are serial numbers for all images that are still to come. A save gives them out.
-/
def Engine.CanSettle (e : Engine) : Prop :=
  (max e.imageCounter (e.run.scene.maxSerial?.getD 0)).toNat
    + (e.timers.live.filter (·.action.brings)).length < UInt64.size

theorem Timers.length_brings_pending (t : Timers) :
    (t.pending.filter (·.brings)).length = (t.live.filter (·.action.brings)).length := by
  unfold pending
  rw [List.filter_map, List.length_map]
  exact ((List.mergeSort_perm ..).filter _).length_eq

namespace Engine

variable {e : Engine} {now : Int64} {p : Playthrough}

/-- The scene of a save is what timers for images leave, without those on their way out. -/
theorem settledScene_eq_ok {scene : Scene} : e.settledScene = .ok scene ↔
    ∃ settled, e.timers.pending.foldlM Scene.afterTimer
      (e.run.scene, max e.imageCounter (e.run.scene.maxSerial?.getD 0)) = .ok settled ∧
        settled.1.dropExiting = scene := by
  refine bind_eq_ok.trans (exists_congr fun settled => and_congr_right fun _ => ?_)
  exact Iff.of_eq (Except.ok.injEq ..)

theorem isOk_settledScene : e.settledScene.isOk ↔ e.CanSettle := by
  have hsettled := Scene.exists_foldlM_afterTimer e.run.scene
    (max e.imageCounter (e.run.scene.maxSerial?.getD 0)) e.timers.pending
  unfold CanSettle
  rw [← e.timers.length_brings_pending, ← hsettled, isOk_iff]
  constructor
  · rintro ⟨scene, hscene⟩
    obtain ⟨settled, hrun, -⟩ := settledScene_eq_ok.1 hscene
    exact ⟨settled, hrun⟩
  · rintro ⟨settled, hrun⟩
    exact ⟨_, settledScene_eq_ok.2 ⟨settled, hrun, rfl⟩⟩

theorem snapshot_eq_ok : e.snapshot now = .ok p ↔ ∃ playTime scene,
    e.run.totalPlayTime now = .ok playTime ∧ e.settledScene = .ok scene ∧
      p = { e.run with scene, playTime } := by
  refine bind_eq_ok.trans (exists_congr fun playTime => ?_)
  rw [exists_and_left]
  refine and_congr_right fun _ => bind_eq_ok.trans (exists_congr fun scene => ?_)
  exact and_congr_right fun _ => (Iff.of_eq (Except.ok.injEq ..)).trans eq_comm

/-- Saving does not change the store. -/
theorem store_of_snapshot (h : e.snapshot now = .ok p) : p.store = e.run.store := by
  obtain ⟨playTime, scene, -, -, rfl⟩ := snapshot_eq_ok.1 h
  rfl

/-- There is a save just when the time played is in range and there are serial numbers for all
images. -/
theorem isOk_snapshot : (e.snapshot now).isOk ↔ e.run.Totals now ∧ e.CanSettle := by
  rw [← Playthrough.isOk_totalPlayTime, ← isOk_settledScene, isOk_iff, isOk_iff, isOk_iff]
  constructor
  · rintro ⟨p, hp⟩
    obtain ⟨playTime, scene, htime, hscene, -⟩ := snapshot_eq_ok.1 hp
    exact ⟨⟨playTime, htime⟩, scene, hscene⟩
  · rintro ⟨⟨playTime, htime⟩, scene, hscene⟩
    exact ⟨_, snapshot_eq_ok.2 ⟨playTime, scene, htime, hscene, rfl⟩⟩

theorem save_eq_map (e : Engine) (now : Int64) : e.save now = (e.snapshot now).map (·.text) := rfl

theorem isOk_save : (e.save now).isOk ↔ e.run.Totals now ∧ e.CanSettle := by
  rw [← isOk_snapshot, save_eq_map]
  cases e.snapshot now <;> exact Iff.rfl

/-- Without images to come there are always serial numbers enough. -/
theorem canSettle_of_still (h : ∀ t ∈ e.timers.live, t.action.brings = false) : e.CanSettle := by
  have hnone : e.timers.live.filter (·.action.brings) = [] := by
    rw [List.filter_eq_nil_iff]
    intro t ht
    simp [h t ht]
  unfold CanSettle
  rw [hnone]
  exact UInt64.toNat_lt _

theorem isOk_save_of_still (h : ∀ t ∈ e.timers.live, t.action.brings = false) :
    (e.save now).isOk ↔ e.run.Totals now := by
  rw [isOk_save]
  exact and_iff_left (canSettle_of_still h)

theorem save_eq_ok {text : String} :
    e.save now = .ok text ↔ ∃ p, e.snapshot now = .ok p ∧ p.text = text := map_eq_ok

/-! ## Loads -/

/-- A load takes up the playthrough that is read. -/
theorem of_load {e' : Engine} {text : String} {heard : List Notice}
    (h : e.load now text = .ok (e', heard)) :
    ∃ p, Playthrough.parse text = .ok p ∧ e' = e.resume now p := by
  obtain ⟨p, hp, hresumed⟩ := bind_eq_ok.1 h
  cases hresumed
  exact ⟨p, hp, rfl⟩

/-- The status is taken up as it was saved, if an idle story is at no node. -/
theorem status_resume (hidle : p.status = .idle → p.node = "") (e : Engine) (now : Int64) :
    (e.resume now p).run.status = p.status := by
  change (if p.status = .idle ∧ p.node ≠ "" then .playing else p.status) = p.status
  rw [if_neg]
  rintro ⟨hstatus, hnode⟩
  exact hnode (hidle hstatus)

/-- A save that is loaded differs from what was saved in times and numbers alone. -/
theorem of_load_save {e' saved : Engine} {savedAt : Int64} {text : String} {heard : List Notice}
    (hsave : saved.save savedAt = .ok text) (h : e.load now text = .ok (e', heard)) :
    ∃ settled store scene playTime, saved.settledScene = .ok settled ∧
      List.Forall₂ (fun i' i => ∃ x y, i' = StageImage.withCoordinates i x y)
        scene.images settled.images ∧
      e' = e.resume now { saved.run with store, scene, playTime } := by
  obtain ⟨p, hp, rfl⟩ := of_load h
  obtain ⟨q, hq, rfl⟩ := save_eq_ok.1 hsave
  obtain ⟨playTime, settled, -, hsettled, rfl⟩ := snapshot_eq_ok.1 hq
  obtain ⟨store, scene, rfl, himages⟩ := Playthrough.of_parse_text hp
  exact ⟨settled, store, scene, playTime, hsettled, himages, rfl⟩

end Engine

end BranchingStory
