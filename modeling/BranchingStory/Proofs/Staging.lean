import BranchingStory.Proofs.Runs
/-!
# Images and the timers for them

Images on stage have serial numbers of their own, and no slot has two images that are not on their
way out. An image on its way out has one timer that takes it away; an image that is to come has a
timer too, and waits for an image on its way out to be gone from its slot first. `Engine.Staged` is
all this at once, since no part of it is kept without the others. Each thing that can happen to the
images or the timers has a lemma of its own here.
-/

namespace BranchingStory

/-! ## Timers -/

/-- Timers of the current epoch, numbered in the order in which they were scheduled. -/
structure Timers.Sound (t : Timers) : Prop where
  current : ∀ timer ∈ t.timers, timer.epoch = t.epoch
  ordered : t.timers.Pairwise fun a b => b.number < a.number
  numbered : ∀ timer ∈ t.timers, timer.number ≤ t.lastNumber

namespace Timers.Sound

variable {t : Timers}

theorem of_nil (h : t.timers = []) : t.Sound where
  current timer ht := absurd ht (by simp [h])
  ordered := h ▸ .nil
  numbered timer ht := absurd ht (by simp [h])

/-- All timers are live. -/
theorem live_eq (h : t.Sound) : t.live = t.timers :=
  List.filter_eq_self.2 fun timer ht => by simp [h.current timer ht]

/-- No timer is there twice. -/
theorem nodup (h : t.Sound) : t.timers.Nodup := by
  refine h.ordered.imp fun {a b} hab heq => ?_
  subst heq
  exact Nat.lt_irrefl a.number hab

/-- Timers with the same number are the same. -/
theorem eq_of_number (h : t.Sound) {a b : Timer} (ha : a ∈ t.timers) (hb : b ∈ t.timers)
    (hnumber : a.number = b.number) : a = b := by
  by_contra hne
  have hnumbers : t.timers.Pairwise fun a b => a.number ≠ b.number :=
    h.ordered.imp fun hab => (Nat.ne_of_lt hab).symm
  have hsymm : Std.Symm fun a b : Timer => a.number ≠ b.number := ⟨fun _ _ h => h.symm⟩
  exact hnumbers.forall ha hb hne hnumber

theorem of_sublist (h : t.Sound) {rest : List Timer} (hrest : rest.Sublist t.timers) :
    Timers.Sound { t with timers := rest } where
  current timer ht := h.current timer (hrest.subset ht)
  ordered := h.ordered.sublist hrest
  numbered timer ht := h.numbered timer (hrest.subset ht)

theorem schedule (h : t.Sound) (due : Int64) (action : Deferred) :
    (t.schedule due action).Sound where
  current := by
    intro timer ht
    rcases List.mem_cons.1 ht with rfl | ht
    · rfl
    · exact h.current timer ht
  ordered := by
    refine List.pairwise_cons.2 ⟨fun timer ht => ?_, h.ordered⟩
    exact Nat.lt_succ_of_le (h.numbered timer ht)
  numbered := by
    intro timer ht
    rcases List.mem_cons.1 ht with rfl | ht
    · exact Nat.le_refl _
    · exact Nat.le_succ_of_le (h.numbered timer ht)

end Timers.Sound

/-! ## Images -/

/-- Images with serial numbers of their own up to a counter, of which no two in one slot are not on
their way out. -/
structure Scene.Sound (s : Scene) (counter : UInt64) : Prop where
  distinct : s.images.Pairwise fun a b => a.serial ≠ b.serial
  resident : s.images.Pairwise fun a b => a.slot = b.slot → a.exiting ∨ b.exiting
  counted : ∀ i ∈ s.images, i.serial ≤ counter

theorem UInt64.lt_add_one_of_le {c : UInt64} (h : c ≤ c + 1) : c < c + 1 := by
  refine UInt64.lt_of_le_of_ne h fun heq => ?_
  have hone : c + 1 - c = 1 := by rw [UInt64.add_comm, UInt64.add_sub_cancel]
  rw [← heq, UInt64.sub_self] at hone
  exact absurd hone (by decide)

namespace Scene

variable {s : Scene} {counter : UInt64}

theorem resident?_eq_none {slot : Slot} :
    s.resident? slot = none ↔ ∀ i ∈ s.images, i.slot = slot → i.exiting := by
  simp [resident?]

theorem of_resident? {slot : Slot} {i : StageImage} (h : s.resident? slot = some i) :
    i ∈ s.images ∧ i.slot = slot ∧ i.exiting = false := by
  have hfound := List.find?_some h
  simp only [Bool.decide_and, Bool.and_eq_true, decide_eq_true_eq, Bool.not_eq_true',
    Bool.decide_eq_false] at hfound
  exact ⟨List.mem_of_find?_eq_some h, hfound.1, by simpa using hfound.2⟩

namespace Sound

theorem empty (counter : UInt64) : Scene.Sound {} counter where
  distinct := .nil
  resident := .nil
  counted _ hi := absurd hi List.not_mem_nil

theorem of_sublist (h : s.Sound counter) {images : List StageImage}
    (himages : images.Sublist s.images) : Scene.Sound ⟨images⟩ counter where
  distinct := h.distinct.sublist himages
  resident := h.resident.sublist himages
  counted i hi := h.counted i (himages.subset hi)

theorem keep (h : s.Sound counter) (p : StageImage → Bool) : (s.keep p).Sound counter :=
  h.of_sublist List.filter_sublist

/-- Images with the same serial number are the same. -/
theorem eq_of_serial (h : s.Sound counter) {i j : StageImage} (hi : i ∈ s.images)
    (hj : j ∈ s.images) (hserial : i.serial = j.serial) : i = j := by
  by_contra hne
  have hsymm : Std.Symm fun a b : StageImage => a.serial ≠ b.serial := ⟨fun _ _ h => h.symm⟩
  exact h.distinct.forall hi hj hne hserial

/-- Two images in one slot that are not on their way out are the same. -/
theorem eq_of_slot (h : s.Sound counter) {i j : StageImage} (hi : i ∈ s.images)
    (hj : j ∈ s.images) (hslot : i.slot = j.slot) (hie : i.exiting = false)
    (hje : j.exiting = false) : i = j := by
  by_contra hne
  have hsymm : Std.Symm fun a b : StageImage => a.slot = b.slot → a.exiting ∨ b.exiting :=
    ⟨fun _ _ h hslot => (h hslot.symm).symm⟩
  have hexiting := h.resident.forall hi hj hne hslot
  simp [hie, hje] at hexiting

/-- What stays in a slot is what the slot shows. -/
theorem resident?_eq (h : s.Sound counter) {slot : Slot} {i : StageImage} (hi : i ∈ s.images)
    (hslot : i.slot = slot) (hstays : i.exiting = false) : s.resident? slot = some i := by
  cases hr : s.resident? slot with
  | none =>
    have hexiting := resident?_eq_none.1 hr i hi hslot
    exact absurd (hstays.symm.trans hexiting) Bool.false_ne_true
  | some j =>
    obtain ⟨hj, hj', hstays'⟩ := of_resident? hr
    rw [h.eq_of_slot hi hj (hslot.trans hj'.symm) hstays hstays']

/-- An image under the next serial number may be placed, unless the numbers have run out. -/
theorem place (h : s.Sound counter) (hroom : counter ≤ counter + 1) {i : StageImage}
    (hserial : i.serial = counter + 1) : (s.place i).Sound (counter + 1) := by
  have hlt := UInt64.lt_add_one_of_le hroom
  have hkept := h.keep fun j => j.exiting || j.slot ≠ i.slot
  refine ⟨?_, ?_, ?_⟩
  · refine List.pairwise_append.2 ⟨hkept.distinct, List.pairwise_singleton .., fun j hj k hk => ?_⟩
    obtain rfl := List.mem_singleton.1 hk
    have hj := hkept.counted j hj
    rw [hserial]
    exact fun heq => absurd (heq ▸ hj) (UInt64.not_le.2 hlt)
  · refine List.pairwise_append.2 ⟨hkept.resident, List.pairwise_singleton .., fun j hj k hk => ?_⟩
    obtain rfl := List.mem_singleton.1 hk
    have hj := (List.mem_filter.1 hj).2
    intro hslot
    left
    simpa [hslot] using hj
  · intro j hj
    rcases List.mem_append.1 hj with hj | hj
    · exact UInt64.le_of_lt (UInt64.lt_of_le_of_lt (hkept.counted j hj) hlt)
    · obtain rfl := List.mem_singleton.1 hj
      exact UInt64.le_of_eq hserial

/-- Beginning an exit changes the one image with the serial number. -/
theorem images_beginExit (h : s.Sound counter) (serial : UInt64) (effect : ExitEffect)
    (duration : Option UInt64) :
    (s.beginExit serial effect duration).images =
      s.images.map fun i => if i.serial = serial then i.leaving effect duration else i := by
  have hreplace : ∀ images : List StageImage, images.Pairwise (fun a b => a.serial ≠ b.serial) →
      replaceFirst serial (·.leaving effect duration) images =
        images.map fun i => if i.serial = serial then i.leaving effect duration else i := by
    intro images
    induction images with
    | nil => exact fun _ => rfl
    | cons i rest ih =>
      intro hdistinct
      obtain ⟨hi, hrest⟩ := List.pairwise_cons.1 hdistinct
      rw [replaceFirst, List.map_cons]
      split
      · rename_i hserial
        have hothers :
            rest.map (fun j => if j.serial = serial then j.leaving effect duration else j) =
            rest := by
          refine (List.map_congr_left fun j hj => if_neg ?_).trans (List.map_id _)
          exact fun heq => hi j hj (hserial.trans heq.symm)
        rw [hothers]
      · rw [ih hrest]
  exact hreplace s.images h.distinct

/-- Images in other slots stay as they are when one begins to leave. -/
theorem mem_beginExit (h : s.Sound counter) {i j : StageImage} (hj : j ∈ s.images)
    (hslot : i.slot ≠ j.slot) {effect : ExitEffect} {duration : Option UInt64} :
    i ∈ (s.beginExit j.serial effect duration).images ↔ i ∈ s.images := by
  rw [h.images_beginExit]
  constructor
  · intro hi
    obtain ⟨k, hk, rfl⟩ := List.mem_map.1 hi
    split
    · rename_i hserial
      rw [if_pos hserial, h.eq_of_serial hk hj hserial] at hslot
      exact absurd rfl hslot
    · exact hk
  · intro hi
    refine List.mem_map.2 ⟨i, hi, if_neg fun hserial => hslot ?_⟩
    rw [h.eq_of_serial hi hj hserial]

theorem beginExit (h : s.Sound counter) (serial : UInt64) (effect : ExitEffect)
    (duration : Option UInt64) : (s.beginExit serial effect duration).Sound counter := by
  have hserial (i : StageImage) :
      (if i.serial = serial then i.leaving effect duration else i).serial = i.serial := by
    split <;> rfl
  have hslot (i : StageImage) :
      (if i.serial = serial then i.leaving effect duration else i).slot = i.slot := by
    split <;> rfl
  have hexiting (i : StageImage) (hi : i.exiting) :
      (if i.serial = serial then i.leaving effect duration else i).exiting := by
    split
    · rfl
    · exact hi
  refine ⟨?_, ?_, ?_⟩ <;> rw [h.images_beginExit]
  · exact List.pairwise_map.2 (h.distinct.imp fun {i j} hij => by rwa [hserial, hserial])
  · refine List.pairwise_map.2 (h.resident.imp fun {i j} hij heq => ?_)
    rw [hslot, hslot] at heq
    exact (hij heq).imp (hexiting i) (hexiting j)
  · intro j hj
    obtain ⟨i, hi, rfl⟩ := List.mem_map.1 hj
    rw [hserial]
    exact h.counted i hi

end Sound

end Scene

/-! ## Images and timers together -/

namespace Engine

/-- How images and timers belong together. Timers for images to come may be `late`: what they waited
for is gone already. -/
structure Staged (late : Timer → Prop) (e : Engine) : Prop where
  timers : e.timers.Sound
  scene : e.run.scene.Sound e.imageCounter
  /-- A timer that removes an image was scheduled for an image that was on its way out. -/
  removal : ∀ t ∈ e.timers.timers, ∀ serial, t.action = .removeImage serial →
    serial ≤ e.imageCounter ∧ ∀ i ∈ e.run.scene.images, i.serial = serial → i.exiting
  removedOnce : e.timers.timers.Pairwise fun a b =>
    ∀ serial, a.action = .removeImage serial → b.action ≠ .removeImage serial
  removed : ∀ i ∈ e.run.scene.images, i.exiting →
    ∃ t ∈ e.timers.timers, t.action = .removeImage i.serial
  filledOnce : e.timers.timers.Pairwise fun a b =>
    ∀ slot, a.action.fills slot → ¬ b.action.fills slot
  /-- A slot that an image is to come into has no other image but those on their way out. -/
  vacated : ∀ t ∈ e.timers.timers, ∀ slot, t.action.fills slot →
    ∀ i ∈ e.run.scene.images, i.slot = slot → i.exiting
  awaited : ∀ t ∈ e.timers.timers, ∀ slot, t.action.fills slot → late t ∨
    ∃ i ∈ e.run.scene.images, i.slot = slot ∧
      ∃ r ∈ e.timers.timers, r.action = .removeImage i.serial ∧ r.due = t.due ∧ r.number < t.number

namespace Staged

variable {late : Timer → Prop} {e : Engine}

/-- Only the timers, the images and the counter matter. -/
theorem congr (h : e.Staged late) {e' : Engine} (htimers : e'.timers = e.timers)
    (hscene : e'.run.scene = e.run.scene) (hcounter : e'.imageCounter = e.imageCounter) :
    e'.Staged late := by
  refine ⟨?_, ?_, ?_, ?_, ?_, ?_, ?_, ?_⟩ <;> simp only [htimers, hscene, hcounter]
  exacts [h.timers, h.scene, h.removal, h.removedOnce, h.removed, h.filledOnce, h.vacated,
    h.awaited]

/-- One timer at most fills a slot. -/
theorem eq_of_fills (h : e.Staged late) {a b : Timer} (ha : a ∈ e.timers.timers)
    (hb : b ∈ e.timers.timers) {slot : Slot} (hfills : a.action.fills slot)
    (hfills' : b.action.fills slot) : a = b := by
  by_contra hne
  have hsymm : Std.Symm fun a b : Timer => ∀ slot, a.action.fills slot → ¬ b.action.fills slot :=
    ⟨fun _ _ hab slot hb ha => hab slot ha hb⟩
  exact h.filledOnce.forall ha hb hne slot hfills hfills'

/-- One timer at most removes an image. -/
theorem eq_of_removes (h : e.Staged late) {a b : Timer} (ha : a ∈ e.timers.timers)
    (hb : b ∈ e.timers.timers) {serial : UInt64} (haction : a.action = .removeImage serial)
    (haction' : b.action = .removeImage serial) : a = b := by
  by_contra hne
  have hsymm : Std.Symm fun a b : Timer =>
      ∀ serial, a.action = .removeImage serial → b.action ≠ .removeImage serial :=
    ⟨fun _ _ hab serial hb ha => hab serial ha hb⟩
  exact h.removedOnce.forall ha hb hne serial haction haction'

/-- Timers that remove no image may go. -/
theorem of_timers_sublist (h : e.Staged late) {rest : List Timer}
    (hrest : rest.Sublist e.timers.timers)
    (hremovals : ∀ t ∈ e.timers.timers, ∀ serial, t.action = .removeImage serial → t ∈ rest) :
    Staged late { e with timers.timers := rest } where
  timers := h.timers.of_sublist hrest
  scene := h.scene
  removal t ht := h.removal t (hrest.subset ht)
  removedOnce := h.removedOnce.sublist hrest
  removed i hi hexiting := by
    obtain ⟨t, ht, haction⟩ := h.removed i hi hexiting
    exact ⟨t, hremovals t ht _ haction, haction⟩
  filledOnce := h.filledOnce.sublist hrest
  vacated t ht := h.vacated t (hrest.subset ht)
  awaited t ht slot hfills := by
    refine (h.awaited t (hrest.subset ht) slot hfills).imp_right ?_
    rintro ⟨i, hi, hslot, r, hr, haction, hdue⟩
    exact ⟨i, hi, hslot, r, hremovals r hr _ haction, haction, hdue⟩

/-- Images may go that no image to come waits for. -/
theorem of_images_sublist (h : e.Staged late) {images : List StageImage}
    (himages : images.Sublist e.run.scene.images)
    (hkept : ∀ i ∈ e.run.scene.images, i.exiting → i ∈ images ∨
      ∀ t ∈ e.timers.timers, ¬ t.action.fills i.slot) :
    Staged late { e with run.scene := ⟨images⟩ } where
  timers := h.timers
  scene := h.scene.of_sublist himages
  removal t ht serial haction :=
    ⟨(h.removal t ht serial haction).1, fun i hi =>
      (h.removal t ht serial haction).2 i (himages.subset hi)⟩
  removedOnce := h.removedOnce
  removed i hi := h.removed i (himages.subset hi)
  filledOnce := h.filledOnce
  vacated t ht slot hfills i hi := h.vacated t ht slot hfills i (himages.subset hi)
  awaited t ht slot hfills := by
    refine (h.awaited t ht slot hfills).imp_right ?_
    rintro ⟨i, hi, hslot, hr⟩
    have hexiting := h.vacated t ht slot hfills i hi hslot
    rcases hkept i hi hexiting with hi | hnone
    · exact ⟨i, hi, hslot, hr⟩
    · exact absurd (hslot ▸ hfills) (hnone t ht)

/-- An image may be shown in a slot that no other image is to come into. -/
theorem showImage (h : e.Staged late) {node : String} {d : ImageDirective}
    (hfree : ∀ t ∈ e.timers.timers, ¬ t.action.fills d.picture.slot)
    (hroom : e.imageCounter ≤ (e.showImage node d).imageCounter) :
    (e.showImage node d).Staged late := by
  have hlt := UInt64.lt_add_one_of_le hroom
  have hmem : ∀ i ∈ (e.showImage node d).run.scene.images,
      (i ∈ e.run.scene.images ∧ (i.exiting ∨ i.slot ≠ d.picture.slot)) ∨
        i = .ofDirective node (e.imageCounter + 1) d := by
    intro i hi
    rcases List.mem_append.1 hi with hi | hi
    · obtain ⟨hi, hstays⟩ := List.mem_filter.1 hi
      simp only [Bool.or_eq_true, decide_eq_true_eq] at hstays
      exact .inl ⟨hi, hstays⟩
    · exact .inr (List.mem_singleton.1 hi)
  have hold : ∀ i ∈ e.run.scene.images, i.exiting → i ∈ (e.showImage node d).run.scene.images := by
    intro i hi hexiting
    exact List.mem_append_left _ (List.mem_filter.2 ⟨hi, by simp [hexiting]⟩)
  refine {
    timers := h.timers
    scene := h.scene.place hroom rfl
    removal := ?removal
    removedOnce := h.removedOnce
    removed := ?removed
    filledOnce := h.filledOnce
    vacated := ?vacated
    awaited := ?awaited }
  case removal =>
    intro t ht serial haction
    obtain ⟨hle, hexiting⟩ := h.removal t ht serial haction
    refine ⟨UInt64.le_of_lt (UInt64.lt_of_le_of_lt hle hlt), fun i hi hserial => ?_⟩
    rcases hmem i hi with ⟨hi, -⟩ | rfl
    · exact hexiting i hi hserial
    · subst hserial
      exact absurd hle (UInt64.not_le.2 hlt)
  case removed =>
    intro i hi hexiting
    rcases hmem i hi with ⟨hi, -⟩ | rfl
    · exact h.removed i hi hexiting
    · cases hexiting
  case vacated =>
    intro t ht slot hfills i hi hslot
    rcases hmem i hi with ⟨hi, -⟩ | rfl
    · exact h.vacated t ht slot hfills i hi hslot
    · subst hslot
      exact absurd hfills (hfree t ht)
  case awaited =>
    intro t ht slot hfills
    refine (h.awaited t ht slot hfills).imp_right ?_
    rintro ⟨i, hi, hslot, hr⟩
    exact ⟨i, hold i hi (h.vacated t ht slot hfills i hi hslot), hslot, hr⟩

/-- An image in a slot that no other image is to come into may begin to leave, together with a timer
for its end. -/
theorem beginExit (h : e.Staged late) {i : StageImage} (hi : i ∈ e.run.scene.images)
    (hstays : i.exiting = false) (hfree : ∀ t ∈ e.timers.timers, ¬ t.action.fills i.slot)
    (effect : ExitEffect) (duration : Option UInt64) (due : Int64) :
    Staged late { e with
      run.scene := e.run.scene.beginExit i.serial effect duration,
      timers := e.timers.schedule due (.removeImage i.serial) } := by
  have himages := h.scene.images_beginExit i.serial effect duration
  have hmem : ∀ j ∈ (e.run.scene.beginExit i.serial effect duration).images,
      ∃ k ∈ e.run.scene.images, j.serial = k.serial ∧ j.slot = k.slot ∧
        (j.exiting ↔ k.exiting ∨ k = i) := by
    rw [himages]
    intro j hj
    obtain ⟨k, hk, rfl⟩ := List.mem_map.1 hj
    refine ⟨k, hk, ?_⟩
    split
    · rename_i hserial
      obtain rfl := h.scene.eq_of_serial hk hi hserial
      exact ⟨rfl, rfl, by simp [StageImage.leaving]⟩
    · rename_i hserial
      have hne : k ≠ i := fun heq => hserial (congrArg StageImage.serial heq)
      exact ⟨rfl, rfl, by simp [hne]⟩
  have hnew : ∀ t ∈ e.timers.timers, t.action ≠ .removeImage i.serial := by
    intro t ht haction
    simpa [hstays] using (h.removal t ht _ haction).2 i hi rfl
  refine {
    timers := h.timers.schedule due _
    scene := h.scene.beginExit _ _ _
    removal := ?removal
    removedOnce := ?removedOnce
    removed := ?removed
    filledOnce := ?filledOnce
    vacated := ?vacated
    awaited := ?awaited }
  case removal =>
    intro t ht serial haction
    rcases List.mem_cons.1 ht with rfl | ht
    · cases haction
      refine ⟨h.scene.counted i hi, fun j hj hserial => ?_⟩
      obtain ⟨k, hk, hjk, -, hexiting⟩ := hmem j hj
      exact hexiting.2 (.inr (h.scene.eq_of_serial hk hi (hjk.symm.trans hserial)))
    · obtain ⟨hle, hexiting⟩ := h.removal t ht serial haction
      refine ⟨hle, fun j hj hserial => ?_⟩
      obtain ⟨k, hk, hjk, -, hj⟩ := hmem j hj
      exact hj.2 (.inl (hexiting k hk (hjk.symm.trans hserial)))
  case removedOnce =>
    refine List.pairwise_cons.2 ⟨fun t ht serial haction => ?_, h.removedOnce⟩
    cases haction
    exact hnew t ht
  case removed =>
    intro j hj hexiting
    obtain ⟨k, hk, hjk, -, hj⟩ := hmem j hj
    rw [hjk]
    rcases hj.1 hexiting with hk' | rfl
    · obtain ⟨t, ht, haction⟩ := h.removed k hk hk'
      exact ⟨t, .tail _ ht, haction⟩
    · exact ⟨_, .head _, rfl⟩
  case filledOnce =>
    refine List.pairwise_cons.2 ⟨fun t ht slot hfills => ?_, h.filledOnce⟩
    exact absurd hfills Bool.false_ne_true
  case vacated =>
    intro t ht slot hfills j hj hslot
    rcases List.mem_cons.1 ht with rfl | ht
    · exact absurd hfills Bool.false_ne_true
    · obtain ⟨k, hk, -, hjk, hj⟩ := hmem j hj
      exact hj.2 (.inl (h.vacated t ht slot hfills k hk (hjk.symm.trans hslot)))
  case awaited =>
    intro t ht slot hfills
    rcases List.mem_cons.1 ht with rfl | ht
    · exact absurd hfills Bool.false_ne_true
    · refine (h.awaited t ht slot hfills).imp_right ?_
      rintro ⟨k, hk, hslot, r, hr, haction⟩
      have hne : k.serial ≠ i.serial := by
        intro hserial
        rw [← h.scene.eq_of_serial hk hi hserial] at hstays
        exact Bool.false_ne_true (hstays.symm.trans (h.vacated t ht slot hfills k hk hslot))
      refine ⟨k, ?_, hslot, r, .tail _ hr, haction⟩
      rw [himages]
      exact List.mem_map.2 ⟨k, hk, if_neg hne⟩

/-- A timer that removes no image may be scheduled. If it brings one, the slot must be free but for
an image on its way out, whose timer is due at the same time. -/
theorem schedule (h : e.Staged late) {due : Int64} {action : Deferred}
    (hkeeps : ∀ serial, action ≠ .removeImage serial)
    (hfree : ∀ slot, action.fills slot →
      (∀ t ∈ e.timers.timers, ¬ t.action.fills slot) ∧
      (∀ i ∈ e.run.scene.images, i.slot = slot → i.exiting) ∧
      ∃ i ∈ e.run.scene.images, i.slot = slot ∧
        ∃ r ∈ e.timers.timers, r.action = .removeImage i.serial ∧ r.due = due) :
    (e.schedule due action).Staged late := by
  refine {
    timers := h.timers.schedule due _
    scene := h.scene
    removal := ?removal
    removedOnce := ?removedOnce
    removed := ?removed
    filledOnce := ?filledOnce
    vacated := ?vacated
    awaited := ?awaited }
  case removal =>
    intro t ht serial haction
    rcases List.mem_cons.1 ht with rfl | ht
    · exact absurd haction (hkeeps serial)
    · exact h.removal t ht serial haction
  case removedOnce =>
    refine List.pairwise_cons.2 ⟨fun t ht serial haction => ?_, h.removedOnce⟩
    exact absurd haction (hkeeps serial)
  case removed =>
    intro i hi hexiting
    obtain ⟨t, ht, haction⟩ := h.removed i hi hexiting
    exact ⟨t, .tail _ ht, haction⟩
  case filledOnce =>
    refine List.pairwise_cons.2 ⟨fun t ht slot hfills => ?_, h.filledOnce⟩
    exact (hfree slot hfills).1 t ht
  case vacated =>
    intro t ht slot hfills
    rcases List.mem_cons.1 ht with rfl | ht
    · exact (hfree slot hfills).2.1
    · exact h.vacated t ht slot hfills
  case awaited =>
    intro t ht slot hfills
    rcases List.mem_cons.1 ht with rfl | ht
    · obtain ⟨-, -, i, hi, hslot, r, hr, haction, hdue⟩ := hfree slot hfills
      have hnumber : r.number < e.timers.lastNumber + 1 :=
        Nat.lt_succ_of_le (h.timers.numbered r hr)
      exact .inr ⟨i, hi, hslot, r, .tail _ hr, haction, hdue, hnumber⟩
    · refine (h.awaited t ht slot hfills).imp_right ?_
      rintro ⟨i, hi, hslot, r, hr, hrest⟩
      exact ⟨i, hi, hslot, r, .tail _ hr, hrest⟩

/-- An image whose timer fires goes. What waited for it to go is late now. -/
theorem fireRemoval (h : e.Staged late) {r : Timer} (hr : r ∈ e.timers.timers) {serial : UInt64}
    (haction : r.action = .removeImage serial) (hlate : ∀ t : Timer, r.due = t.due → late t) :
    Staged late { e with
      timers.timers := e.timers.timers.erase r, run.scene := e.run.scene.remove serial } := by
  have herase : (e.timers.timers.erase r).Sublist e.timers.timers := List.erase_sublist
  have hother : ∀ t ∈ e.timers.timers, t ≠ r → t ∈ e.timers.timers.erase r :=
    fun t ht hne => (List.mem_erase_of_ne hne).2 ht
  have hmem : ∀ i ∈ (e.run.scene.remove serial).images,
      i ∈ e.run.scene.images ∧ i.serial ≠ serial := by
    intro i hi
    simpa [Scene.remove, Scene.keep] using hi
  refine {
    timers := h.timers.of_sublist herase
    scene := h.scene.keep _
    removal := ?removal
    removedOnce := h.removedOnce.sublist herase
    removed := ?removed
    filledOnce := h.filledOnce.sublist herase
    vacated := ?vacated
    awaited := ?awaited }
  case removal =>
    intro t ht serial' haction'
    obtain ⟨hle, hexiting⟩ := h.removal t (herase.subset ht) serial' haction'
    exact ⟨hle, fun i hi => hexiting i (hmem i hi).1⟩
  case removed =>
    intro i hi hexiting
    obtain ⟨hi, hserial⟩ := hmem i hi
    obtain ⟨t, ht, haction'⟩ := h.removed i hi hexiting
    refine ⟨t, hother t ht ?_, haction'⟩
    rintro rfl
    rw [haction] at haction'
    cases haction'
    exact hserial rfl
  case vacated =>
    intro t ht slot hfills i hi
    exact h.vacated t (herase.subset ht) slot hfills i (hmem i hi).1
  case awaited =>
    intro t ht slot hfills
    rcases h.awaited t (herase.subset ht) slot hfills with hl | ⟨i, hi, hslot, q, hq, haq, hdue, hn⟩
    · exact .inl hl
    · by_cases hqr : q = r
      · exact .inl (hlate t (hqr ▸ hdue))
      · refine .inr ⟨i, ?_, hslot, q, hother q hq hqr, haq, hdue, hn⟩
        have hserial : i.serial ≠ serial := by
          rintro rfl
          exact hqr (h.eq_of_removes hq hr haq haction)
        simpa [Scene.remove, Scene.keep] using ⟨hi, hserial⟩

/-- What is late in one sense is late in a weaker one. -/
theorem imp (h : e.Staged late) {late' : Timer → Prop} (himp : ∀ t, late t → late' t) :
    e.Staged late' where
  __ := h
  awaited t ht slot hfills := (h.awaited t ht slot hfills).imp_left (himp t)

/-- With no timer that is late, nothing is late. -/
theorem prompt (h : e.Staged late) (hnone : ∀ t ∈ e.timers.timers, ¬ late t) :
    e.Staged fun _ => False where
  __ := h
  awaited t ht slot hfills := .inr ((h.awaited t ht slot hfills).resolve_left (hnone t ht))

/-- Without timers and without images on their way out nothing is left to be said. -/
theorem of_quiet {e : Engine} (htimers : e.timers.timers = [])
    (hscene : e.run.scene.Sound e.imageCounter)
    (hnone : ∀ i ∈ e.run.scene.images, i.exiting = false) : e.Staged late := by
  have hno : ∀ t, t ∉ e.timers.timers := fun t ht => by simp [htimers] at ht
  exact {
    timers := .of_nil htimers
    scene := hscene
    removal := fun t ht => absurd ht (hno t)
    removedOnce := htimers ▸ .nil
    removed := fun i hi hexiting => absurd hexiting (by simp [hnone i hi])
    filledOnce := htimers ▸ .nil
    vacated := fun t ht => absurd ht (hno t)
    awaited := fun t ht => absurd ht (hno t) }

end Staged

end Engine

end BranchingStory
