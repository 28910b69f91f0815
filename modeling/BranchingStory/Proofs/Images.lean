import BranchingStory.Proofs.Documents
import BranchingStory.Proofs.Runs
import BranchingStory.Proofs.Staging
/-!
# Images and their timers in every run

Every step keeps images and timers together as `Engine.Staged` says, except that in a poll the timer
for an image that is to come may be late: the image before it is gone and the timer is still to
fire. Once no timer is due any more, none is late. So the images on stage have serial numbers of
their own, each image on its way out has its one timer, and no other image has any.
-/

namespace BranchingStory

/-! ## Steps -/

namespace Engine

variable {late : Timer → Prop} {e : Engine} {now : Int64}

/-- After timers for a slot have been cancelled nothing is to come into it. -/
theorem cleared_free (h : e.Staged late) (d : ImageDirective) :
    ∀ t ∈ (e.cleared d).timers.timers, ¬ t.action.fills d.picture.slot := by
  intro t ht
  obtain ⟨ht, hcancelled⟩ := List.mem_filter.1 ht
  simpa [h.timers.current t ht] using hcancelled

namespace Staged

theorem cleared (h : e.Staged late) (d : ImageDirective) : (e.cleared d).Staged late := by
  refine h.of_timers_sublist List.filter_sublist fun t ht serial haction => ?_
  exact List.mem_filter.2 ⟨ht, by simp [haction, Deferred.fills]⟩

theorem direct (h : e.Staged late) {node : String} {d : ImageDirective}
    (hroom : e.imageCounter ≤ (e.direct now node d).imageCounter) :
    (e.direct now node d).Staged late := by
  have hcleared := h.cleared d
  have hfree := cleared_free h d
  have hd := directs e now node d
  generalize e.direct now node d = after at hd hroom
  cases hd with
  | empty hremoval =>
    refine hcleared.of_images_sublist List.filter_sublist fun i hi hexiting => ?_
    by_cases hslot : i.slot = d.picture.slot
    · exact .inr (hslot ▸ hfree)
    · exact .inl (List.mem_filter.2 ⟨hi, by simp [hslot]⟩)
  | bring hpicture hempty => exact hcleared.showImage hfree hroom
  | replace hpicture resident hresident =>
    obtain ⟨hmem, -, hstays⟩ := Scene.of_resident? hresident
    have hremoved : Staged late
        { e.cleared d with run.scene := (e.cleared d).run.scene.remove resident.serial } := by
      refine hcleared.of_images_sublist List.filter_sublist fun i hi hexiting => ?_
      have hserial : i.serial ≠ resident.serial := by
        intro heq
        rw [hcleared.scene.eq_of_serial hi hmem heq, hstays] at hexiting
        cases hexiting
      exact .inl (List.mem_filter.2 ⟨hi, by simp [hserial]⟩)
    exact hremoved.showImage hfree hroom
  | exchange hpicture resident hresident effect =>
    obtain ⟨hmem, hslot, hstays⟩ := Scene.of_resident? hresident
    have hleaving := hcleared.beginExit hmem hstays (hslot ▸ hfree) effect d.exitDuration
      (dueAfter now ((e.cleared d).exitDuration d))
    have hfree' : ∀ t ∈ ((e.cleared d).timers.schedule
        (dueAfter now ((e.cleared d).exitDuration d)) (.removeImage resident.serial)).timers,
        ¬ t.action.fills d.picture.slot := by
      intro t ht
      rcases List.mem_cons.1 ht with rfl | ht
      · exact Bool.false_ne_true
      · exact hfree t ht
    unfold exchange at hroom ⊢
    generalize d.timing = timing at hroom
    cases timing with
    | crossfade => exact hleaving.showImage hfree' hroom
    | sequential =>
      refine hleaving.schedule (fun _ => nofun) fun slot hfills => ?_
      obtain rfl : d.picture.slot = slot := by simpa [Deferred.fills] using hfills
      refine ⟨hfree', ?_, ?_⟩
      · intro i hi hi'
        rw [hcleared.scene.images_beginExit] at hi
        obtain ⟨j, hj, rfl⟩ := List.mem_map.1 hi
        split
        · rfl
        · rename_i hserial
          rw [if_neg hserial] at hi'
          by_contra hstays'
          have heq := hcleared.scene.eq_of_slot hj hmem (hi'.trans hslot.symm)
            (Bool.eq_false_iff.2 hstays') hstays
          exact hserial (congrArg StageImage.serial heq)
      · refine ⟨resident.leaving effect d.exitDuration, ?_, hslot, _, .head _, rfl, rfl⟩
        rw [hcleared.scene.images_beginExit]
        exact List.mem_map.2 ⟨resident, hmem, if_pos rfl⟩

theorem enter (h : e.Staged late) {n : Node}
    (hroom : e.imageCounter ≤ (e.enter now n).1.imageCounter) : (e.enter now n).1.Staged late := by
  have hentered := enters e now n
  generalize e.enter now n = after at hentered hroom
  cases hentered with
  | plain => exact h.congr rfl rfl rfl
  | image d => exact (h.direct hroom).congr rfl rfl rfl
  | wait d _ next _ _ _ due =>
    have hscheduled : ((e.direct now n.id d).schedule due (.moveOn next)).Staged late :=
      (h.direct hroom).schedule (fun _ => nofun) fun slot hfills =>
        absurd hfills Bool.false_ne_true
    exact hscheduled.congr rfl rfl rfl

end Staged

end Engine

theorem Enters.staged {late : Timer → Prop} {now : Int64} {a b : Moment} (h : Enters now a b)
    (hroom : a.engine.imageCounter ≤ b.engine.imageCounter) (ha : a.engine.Staged late) :
    b.engine.Staged late := by
  obtain ⟨hchapter, honward, hnode⟩ := h
  rename_i chapter id n
  have hat : (a.engine.atNode id).Staged late := ha.congr rfl rfl rfl
  exact hat.enter hroom

/-- While timers fire, those that are due already may be late. -/
theorem Fires.staged {late : Timer → Prop} {now : Int64} {a b : Moment} (h : Fires now a b)
    (hroom : a.engine.imageCounter ≤ b.engine.imageCounter)
    (hlate : ∀ t : Timer, t.due ≤ now → late t) (ha : a.engine.Staged late) :
    b.engine.Staged late := by
  have herase (timer : Timer) (hother : ∀ serial, timer.action ≠ .removeImage serial) :
      Engine.Staged late
        { a.engine with timers.timers := a.engine.timers.timers.erase timer } := by
    refine ha.of_timers_sublist List.erase_sublist fun t ht serial haction => ?_
    refine (List.mem_erase_of_ne ?_).2 ht
    rintro rfl
    exact hother serial haction
  cases h with
  | remove hdue =>
    obtain ⟨timer, hlive, hnow, haction, rfl, -⟩ := Timers.of_popDue hdue
    exact ha.fireRemoval (Timers.mem_live.1 hlive).1 haction fun t ht =>
      hlate t (ht ▸ hnow)
  | bring hdue =>
    rename_i node d timers
    obtain ⟨timer, hlive, -, haction, rfl, -⟩ := Timers.of_popDue hdue
    refine (herase timer (by simp [haction])).showImage ?_ hroom
    intro t ht hfills
    have hne := (ha.timers.nodup.mem_erase_iff.1 ht).1
    refine hne (ha.eq_of_fills (List.mem_of_mem_erase ht) (Timers.mem_live.1 hlive).1 hfills ?_)
    simp [haction, Deferred.fills]
  | moveOn hdue =>
    obtain ⟨timer, hlive, -, haction, rfl, -⟩ := Timers.of_popDue hdue
    exact herase timer (by simp [haction])

theorem Follows.staged {late : Timer → Prop} {now : Int64} {a b : Moment} (h : Follows now a b)
    (hroom : a.engine.imageCounter ≤ b.engine.imageCounter)
    (hlate : ∀ t : Timer, t.due ≤ now → late t) (ha : a.engine.Staged late) :
    b.engine.Staged late :=
  h.elim (·.staged hroom ha) (·.staged hroom hlate ha)

theorem Opens.staged {late : Timer → Prop} {e : Engine} {now : Int64} {c : Call} {a : Moment}
    (h : Opens e now c a) (he : e.Staged late) : a.engine.Staged late := by
  cases h with
  | anew _ hc stage chapter id onward hchapter =>
    exact .of_quiet rfl (.empty _) fun i hi => absurd hi List.not_mem_nil
  | movedInto s t hidle stage chapter id onward hchapter =>
    have hdropped : ∀ i ∈ (e.run.scene.dropExiting).images, i.exiting = false := by
      intro i hi
      simpa using (List.mem_filter.1 hi).2
    refine .of_quiet rfl ?_ ?_
    · dsimp only [Engine.movedInto, Engine.atNode]
      split
      · exact .empty _
      · exact he.scene.keep _
    · dsimp only [Engine.movedInto, Engine.atNode]
      split
      · exact fun i hi => absurd hi List.not_mem_nil
      · exact hdropped
  | advance hfree onward => exact he
  | finish hfree n => exact he.congr rfl rfl rfl
  | choose index hfree n c onward => exact he.congr rfl rfl rfl
  | poll => exact he

/-! ## Serial numbers in a save -/

/-- What matters about an image to those that stand beside it. -/
def StageImage.standing (i : StageImage) : UInt64 × Slot × Bool := (i.serial, i.slot, i.exiting)

instance instLawfulOrderMaxUInt64 : Std.LawfulOrderMax UInt64 where
  max_eq_or a b := by
    change (if a ≤ b then b else a) = a ∨ (if a ≤ b then b else a) = b
    split <;> simp
  max_le_iff a b c := by
    change (if a ≤ b then b else a) ≤ c ↔ a ≤ c ∧ b ≤ c
    split <;> simp only [UInt64.le_iff_toNat_le] at * <;> omega

namespace Scene

variable {s : Scene} {counter : UInt64}

/-- Re-reading images changes nothing about them but coordinates. -/
theorem standing_of_reread {images images' : List StageImage}
    (h : List.Forall₂ (fun i' i => ∃ x y, i' = StageImage.withCoordinates i x y) images' images) :
    images'.map StageImage.standing = images.map StageImage.standing := by
  induction h with
  | nil => rfl
  | cons hread _ ih =>
    obtain ⟨x, y, rfl⟩ := hread
    exact congrArg (_ :: ·) ih

theorem serial_le_maxSerial {i : StageImage} (hi : i ∈ s.images) :
    i.serial ≤ s.maxSerial?.getD 0 := by
  have hmem : i.serial ∈ s.images.map (·.serial) := List.mem_map_of_mem hi
  unfold maxSerial?
  cases hmax : (s.images.map (·.serial)).max? with
  | none =>
    rw [List.max?_eq_none_iff] at hmax
    rw [hmax] at hmem
    exact absurd hmem List.not_mem_nil
  | some m => exact (List.max?_eq_some_iff.1 hmax).2 _ hmem

namespace Sound

/-- A counter that all serial numbers are up to is not raised by them. -/
theorem max_counter (h : s.Sound counter) : max counter (s.maxSerial?.getD 0) = counter := by
  have hle : s.maxSerial?.getD 0 ≤ counter := by
    unfold maxSerial?
    cases hmax : (s.images.map (·.serial)).max? with
    | none => exact UInt64.le_iff_toNat_le.2 (Nat.zero_le _)
    | some m =>
      obtain ⟨i, hi, rfl⟩ := List.mem_map.1 (List.max?_eq_some_iff.1 hmax).1
      exact h.counted i hi
  exact UInt64.le_antisymm (Std.LawfulOrderSup.max_le_iff _ _ _ |>.2 ⟨UInt64.le_refl _, hle⟩)
    Std.left_le_max

/-- Only the serial numbers, the slots, and who is on the way out matter. -/
theorem of_standing (h : s.Sound counter) {s' : Scene}
    (hstanding : s'.images.map StageImage.standing = s.images.map StageImage.standing) :
    s'.Sound counter := by
  refine ⟨?_, ?_, fun i hi => ?_⟩
  · have hdistinct : (s.images.map StageImage.standing).Pairwise fun a b => a.1 ≠ b.1 :=
      List.pairwise_map.2 h.distinct
    rw [← hstanding] at hdistinct
    have hmapped := List.pairwise_map.1 hdistinct
    exact hmapped
  · have hresident : (s.images.map StageImage.standing).Pairwise fun a b =>
        a.2.1 = b.2.1 → a.2.2 ∨ b.2.2 := List.pairwise_map.2 h.resident
    rw [← hstanding] at hresident
    exact List.pairwise_map.1 hresident
  · have hmem : i.standing ∈ s'.images.map StageImage.standing := List.mem_map_of_mem hi
    rw [hstanding] at hmem
    obtain ⟨j, hj, heq⟩ := List.mem_map.1 hmem
    have hserial : j.serial = i.serial := congrArg Prod.fst heq
    exact hserial ▸ h.counted j hj

end Sound

/-- Timers that do what they are for one after the other keep images apart. -/
theorem Sound.afterTimers {actions : List Deferred} {settled : Scene × UInt64}
    (h : s.Sound counter) (hsettled : actions.foldlM afterTimer (s, counter) = .ok settled) :
    settled.1.Sound settled.2 := by
  induction actions generalizing s counter with
  | nil =>
    cases hsettled
    exact h
  | cons action rest ih =>
    obtain ⟨next, hnext, hrest⟩ := foldlM_cons_eq_ok.1 hsettled
    cases action with
    | removeImage serial =>
      cases hnext
      exact ih (h.keep _) hrest
    | moveOn id =>
      cases hnext
      exact ih h hrest
    | showImage node d =>
      obtain ⟨hroom, rfl⟩ := afterTimer_showImage.1 hnext
      exact ih (h.place (UInt64.le_of_lt hroom) rfl) hrest

end Scene

/-! ## Runs -/

namespace Engine

/-- A save gives out the numbers after those that the engine has given out. -/
theorem Staged.settledScene_eq_ok {late : Timer → Prop} {e : Engine} (h : e.Staged late)
    {scene : Scene} : e.settledScene = .ok scene ↔
      ∃ settled, e.timers.pending.foldlM Scene.afterTimer (e.run.scene, e.imageCounter) =
        .ok settled ∧ settled.1.dropExiting = scene := by
  rw [Engine.settledScene_eq_ok, h.scene.max_counter]

/-- What a save shows has serial numbers of its own. -/
theorem Staged.sound_settled {late : Timer → Prop} {e : Engine} (h : e.Staged late) {scene : Scene}
    (hscene : e.settledScene = .ok scene) : ∃ counter, scene.Sound counter := by
  obtain ⟨settled, hsettled, rfl⟩ := h.settledScene_eq_ok.1 hscene
  exact ⟨settled.2, (h.scene.afterTimers hsettled).keep _⟩

theorem staged_resume (e : Engine) (now : Int64) {p : Playthrough} {counter : UInt64}
    (hp : p.scene.Sound counter) : (e.resume now p).Staged fun _ => False := by
  refine .of_quiet rfl ?_ fun i hi => ?_
  · have hkept : p.scene.dropExiting.Sound counter := hp.keep _
    refine ⟨hkept.distinct, hkept.resident, fun i hi => ?_⟩
    exact UInt64.le_trans (Scene.serial_le_maxSerial hi) Std.right_le_max
  · simpa using (List.mem_filter.1 hi).2

/-- At every moment of a steady call, images and timers belong together. -/
theorem staged_course {late : Timer → Prop} {e : Engine} {now : Int64} {c : Call} {course : Course}
    (h : e.course now c = .ok course) (hsteady : course.Steady)
    (hlate : ∀ t : Timer, t.due ≤ now → late t) (he : e.Staged late) :
    ∀ m ∈ course.moments, m.engine.Staged late := by
  have hchain := isChain_and (isChain_course h) hsteady
  exact List.IsChain.induction (fun m => m.engine.Staged late) course.moments hchain
    (fun a b hab ha => hab.1.staged hab.2 hlate ha) fun _ => (course_opens h).1.staged he

theorem staged_final {e : Engine} {now : Int64} {c : Call} {course : Course}
    (h : e.course now c = .ok course) (hsteady : course.Steady)
    (hpolled : c = .poll → now = Int64.maxValue → course.final.timers.popDue now = none)
    (he : e.Staged fun _ => False) : course.final.Staged fun _ => False := by
  obtain ⟨m, hm, hfinal⟩ := course.exists_final
  obtain ⟨hopens, hchain⟩ := course_opens h
  split at hchain
  · rename_i hpoll
    subst hpoll
    have hstaged : m.engine.Staged fun t => t.due ≤ now :=
      staged_course h hsteady (fun _ => id) (he.imp fun _ => False.elim) m hm
    rw [hfinal] at hstaged
    refine hstaged.prompt fun t ht => ?_
    have hnone := popDue_final h (hpolled rfl)
    exact Timers.popDue_eq_none.1 hnone t (hstaged.timers.live_eq ▸ ht)
  · have hchain := isChain_and hchain hsteady
    rw [← hfinal]
    exact List.IsChain.induction (fun m => m.engine.Staged fun _ => False) course.moments hchain
      (fun a b hab ha => hab.1.staged hab.2 ha) (fun _ => hopens.staged he) m hm

end Engine

theorem Run.staged {s : Story} {log : List Node} {e : Engine} (h : Run s log e) :
    e.Staged fun _ => False := by
  induction h with
  | fresh settings observers =>
    exact .of_quiet rfl (.empty _) fun i hi => absurd hi List.not_mem_nil
  | call _ h hsteady hpolled ih => exact Engine.staged_final h hsteady hpolled ih
  | load _ _ hsave h _ ihsaved =>
    obtain ⟨settled, store, scene, playTime, hsettled, himages, rfl⟩ := Engine.of_load_save hsave h
    obtain ⟨counter, hsound⟩ := ihsaved.sound_settled hsettled
    exact Engine.staged_resume _ _ (hsound.of_standing (Scene.standing_of_reread himages))

/-! ## Serial numbers in the course of a call -/

/-- Whether two images are the same, though one may be on its way out. -/
def StageImage.IsSame (i j : StageImage) : Prop :=
  i.serial = j.serial ∧ i.node = j.node ∧ i.picture = j.picture

/-- An image that begins to leave stays the same. -/
theorem Scene.isSame_of_mem_beginExit {s : Scene} {serial : UInt64} {effect : ExitEffect}
    {duration : Option UInt64} {i : StageImage}
    (hi : i ∈ (s.beginExit serial effect duration).images) : ∃ j ∈ s.images, j.IsSame i := by
  obtain ⟨images⟩ := s
  change i ∈ replaceFirst serial (·.leaving effect duration) images at hi
  induction images with
  | nil => exact absurd hi List.not_mem_nil
  | cons j rest ih =>
    rw [replaceFirst] at hi
    split at hi
    · rcases List.mem_cons.1 hi with rfl | hi
      · exact ⟨j, .head _, rfl, rfl, rfl⟩
      · exact ⟨i, .tail _ hi, rfl, rfl, rfl⟩
    · rcases List.mem_cons.1 hi with rfl | hi
      · exact ⟨i, .head _, rfl, rfl, rfl⟩
      · obtain ⟨k, hk, hsame⟩ := ih hi
        exact ⟨k, .tail _ hk, hsame⟩

/-- A later engine. Whatever has come on stage meanwhile has got a number that was still free. -/
structure Engine.Later (e e' : Engine) : Prop where
  counter : e.imageCounter ≤ e'.imageCounter
  images : ∀ i ∈ e'.run.scene.images,
    (∃ j ∈ e.run.scene.images, j.IsSame i) ∨ e.imageCounter < i.serial

namespace Engine.Later

variable {e e' e'' : Engine}

theorem trans (h : e.Later e') (h' : e'.Later e'') : e.Later e'' where
  counter := UInt64.le_trans h.counter h'.counter
  images i hi := by
    rcases h'.images i hi with ⟨j, hj, hserial, hnode, hpicture⟩ | hlt
    · refine (h.images j hj).imp ?_ fun hlt => hserial ▸ hlt
      rintro ⟨k, hk, hserial', hnode', hpicture'⟩
      exact ⟨k, hk, hserial'.trans hserial, hnode'.trans hnode, hpicture'.trans hpicture⟩
    · exact .inr (UInt64.lt_of_le_of_lt h.counter hlt)

/-- No image has come. -/
theorem of_subset (hcounter : e'.imageCounter = e.imageCounter)
    (himages : e'.run.scene.images ⊆ e.run.scene.images) : e.Later e' where
  counter := hcounter ▸ UInt64.le_refl _
  images i hi := .inl ⟨i, himages hi, rfl, rfl, rfl⟩

theorem showImage {node : String} {d : ImageDirective}
    (hroom : e.imageCounter ≤ (e.showImage node d).imageCounter) :
    e.Later (e.showImage node d) where
  counter := hroom
  images i hi := by
    rcases List.mem_append.1 hi with hi | hi
    · exact .inl ⟨i, List.mem_of_mem_filter hi, rfl, rfl, rfl⟩
    · obtain rfl := List.mem_singleton.1 hi
      exact .inr (UInt64.lt_add_one_of_le hroom)

theorem beginExit (serial : UInt64) (effect : ExitEffect) (duration : Option UInt64)
    (timers : Timers) : e.Later
      { e with run.scene := e.run.scene.beginExit serial effect duration, timers } where
  counter := UInt64.le_refl _
  images _ hi := .inl (Scene.isSame_of_mem_beginExit hi)

theorem direct {now : Int64} {node : String} {d : ImageDirective}
    (hroom : e.imageCounter ≤ (e.direct now node d).imageCounter) :
    e.Later (e.direct now node d) := by
  have hcleared : e.Later (e.cleared d) := of_subset rfl (List.Subset.refl _)
  refine hcleared.trans ?_
  have hd := directs e now node d
  generalize e.direct now node d = after at hd hroom
  cases hd with
  | empty hremoval => exact of_subset rfl List.filter_sublist.subset
  | bring hpicture hempty => exact showImage hroom
  | replace hpicture resident hresident =>
    have hremoved : (e.cleared d).Later
        { e.cleared d with run.scene := (e.cleared d).run.scene.remove resident.serial } :=
      of_subset rfl List.filter_sublist.subset
    exact hremoved.trans (showImage hroom)
  | exchange hpicture resident hresident effect =>
    have hleaving := beginExit (e := e.cleared d) resident.serial effect d.exitDuration
      ((e.cleared d).timers.schedule (dueAfter now ((e.cleared d).exitDuration d))
        (.removeImage resident.serial))
    unfold exchange at hroom ⊢
    generalize d.timing = timing at hroom
    cases timing with
    | crossfade => exact hleaving.trans (showImage hroom)
    | sequential => exact ⟨hleaving.counter, hleaving.images⟩

theorem enter {now : Int64} {n : Node}
    (hroom : e.imageCounter ≤ (e.enter now n).1.imageCounter) : e.Later (e.enter now n).1 := by
  have hentered := enters e now n
  generalize e.enter now n = after at hentered hroom
  cases hentered with
  | plain => exact of_subset rfl (List.Subset.refl _)
  | image d => exact ⟨hroom, (direct hroom).images⟩
  | wait d => exact ⟨hroom, (direct hroom).images⟩

end Engine.Later

theorem Follows.later {now : Int64} {a b : Moment} (h : Follows now a b)
    (hroom : a.engine.imageCounter ≤ b.engine.imageCounter) : a.engine.Later b.engine := by
  rcases h with ⟨hchapter, honward, hnode⟩ | hfires
  · rename_i chapter id n
    have hat : a.engine.Later (a.engine.atNode id) := .of_subset rfl (List.Subset.refl _)
    exact hat.trans (.enter hroom)
  · cases hfires with
    | remove hdue => exact .of_subset rfl List.filter_sublist.subset
    | bring hdue => exact ⟨hroom, (Engine.Later.showImage hroom).images⟩
    | moveOn hdue => exact .of_subset rfl (List.Subset.refl _)

theorem Opens.later {e : Engine} {now : Int64} {c : Call} {a : Moment} (h : Opens e now c a) :
    e.Later a.engine := by
  cases h with
  | anew => exact .of_subset rfl (List.nil_subset _)
  | movedInto =>
    refine .of_subset rfl ?_
    dsimp only [Engine.movedInto, Engine.atNode]
    split
    · exact List.nil_subset _
    · exact List.filter_sublist.subset
  | _ => exact .of_subset rfl (List.Subset.refl _)

/-- In the course of a call every moment is later than those before it. -/
theorem Engine.later_course {e : Engine} {now : Int64} {c : Call} {course : Course}
    (h : e.course now c = .ok course) (hsteady : course.Steady) :
    (⟨e, none, none⟩ :: course.moments).Pairwise fun a b : Moment => a.engine.Later b.engine := by
  have htrans : IsTrans Moment fun a b => a.engine.Later b.engine :=
    ⟨fun _ _ _ hab hbc => hab.trans hbc⟩
  have hchain := (isChain_and (isChain_course h) hsteady).imp fun a b hab => hab.1.later hab.2
  exact List.isChain_iff_pairwise.1 (.cons_cons (course_opens h).1.later hchain)

/-! ## Main results -/

/-- Of things that exclude each other there is one at most. -/
theorem length_filter_le_one {α : Type} {p : α → Bool} {l : List α}
    (h : l.Pairwise fun a b => p a → ¬ p b) : (l.filter p).length ≤ 1 := by
  induction l with
  | nil => exact Nat.zero_le 1
  | cons a rest ih =>
    obtain ⟨ha, hothers⟩ := List.pairwise_cons.1 h
    cases hp : p a with
    | false => simpa [hp] using ih hothers
    | true =>
      have hrest : rest.filter p = [] := List.filter_eq_nil_iff.2 fun b hb => ha b hb hp
      simp [hp, hrest]

/-- At every time no slot has two images that are not on their way out, and all images have serial
numbers of their own, none beyond the counter. So whatever comes on stage later gets a number larger
than those of all images that are there. -/
theorem Run.images_apart {s : Story} {log : List Node} {e : Engine} (h : Run s log e) :
    (∀ slot, ((e.run.scene.inSlot slot).filter (!·.exiting)).length ≤ 1) ∧
    (e.run.scene.images.map (·.serial)).Nodup ∧
    (∀ i ∈ e.run.scene.images, i.serial ≤ e.imageCounter) ∧
    ∀ now c course, e.course now c = .ok course → course.Steady →
      (⟨e, none, none⟩ :: course.moments).Pairwise fun a b : Moment =>
        ∀ i ∈ b.engine.run.scene.images,
          (∃ j ∈ a.engine.run.scene.images, j.serial = i.serial ∧ j.node = i.node ∧
            j.picture = i.picture) ∨
          ∀ j ∈ a.engine.run.scene.images, j.serial < i.serial := by
  have hscene := h.staged.scene
  refine ⟨fun slot => ?_, List.pairwise_map.2 hscene.distinct, hscene.counted, ?_⟩
  · have hresident := hscene.resident.filter (·.slot = slot)
    refine length_filter_le_one (hresident.imp_of_mem fun {i j} hi hj hexiting hi' hj' => ?_)
    have hslot : i.slot = j.slot := by
      rw [of_decide_eq_true (List.mem_filter.1 hi).2, of_decide_eq_true (List.mem_filter.1 hj).2]
    simp only [Bool.not_eq_true'] at hi' hj'
    simp [hi', hj'] at hexiting
    exact hexiting hslot
  · intro now c course hcourse hsteady
    have hsound : ∀ a ∈ (⟨e, none, none⟩ : Moment) :: course.moments,
        a.engine.run.scene.Sound a.engine.imageCounter := by
      intro a ha
      rcases List.mem_cons.1 ha with rfl | ha
      · exact hscene
      · have hanytime : e.Staged fun _ => True := h.staged.imp fun _ _ => trivial
        exact (Engine.staged_course hcourse hsteady (fun _ _ => trivial) hanytime a ha).scene
    refine (Engine.later_course hcourse hsteady).imp_of_mem fun {a b} ha _ hlater i hi => ?_
    refine (hlater.images i hi).imp_right fun hlt j hj => ?_
    exact UInt64.lt_of_le_of_lt ((hsound a ha).counted j hj) hlt

/-- The second picture gets a larger number than the first one, which is on its way out. -/
theorem Gallery.images_apart_swapping :
    (swapping.run.scene.images.map (·.serial)).Nodup ∧
      ∀ course, swapping.course 700 .poll = .ok course → course.Steady → ∀ m ∈ course.moments,
        ∀ i ∈ m.engine.run.scene.images, i.node = "dusk" →
          ∀ j ∈ swapping.run.scene.images, j.serial < i.serial := by
  obtain ⟨-, hdistinct, -, hlater⟩ := Run.images_apart run_swapping
  refine ⟨hdistinct, fun course hcourse hsteady m hm i hi hnode => ?_⟩
  have hpairs := List.rel_of_pairwise_cons (hlater 700 .poll course hcourse hsteady) hm
  refine (hpairs i hi).resolve_left ?_
  rintro ⟨j, hj, -, hsame, -⟩
  have hdawn : ∀ j ∈ swapping.run.scene.images, j.node = "dawn" := by decide +kernel
  rw [hnode, hdawn j hj] at hsame
  exact absurd hsame (by decide)

/-- An image on its way out has one live timer that takes it away, and an image that is not has
none. A slot has at most one live timer for an image to come; then there is nothing in it but images
on their way out, and one of them goes at the same time and first. So without live timers nothing is
on its way out, and no timer that fires ever takes away an image that is not. -/
theorem Run.timers_match_images {s : Story} {log : List Node} {e : Engine} (h : Run s log e) :
    (∀ i ∈ e.run.scene.images, i.exiting →
      (e.timers.live.filter (·.action = .removeImage i.serial)).length = 1) ∧
    (∀ i ∈ e.run.scene.images, i.exiting = false →
      ∀ t ∈ e.timers.live, t.action ≠ .removeImage i.serial) ∧
    (∀ slot, (e.timers.live.filter (·.action.fills slot)).length ≤ 1) ∧
    (∀ t ∈ e.timers.live, ∀ slot, t.action.fills slot →
      e.run.scene.resident? slot = none ∧
      (∃ i ∈ e.run.scene.images, i.slot = slot ∧ i.exiting ∧
        ∃ r ∈ e.timers.live, r.action = .removeImage i.serial ∧ r.due = t.due ∧
          r.number < t.number) ∧
      ∀ now action timers, e.timers.popDue now = some (action, timers) →
        action.fills slot = false) ∧
    (e.timers.live = [] → ∀ i ∈ e.run.scene.images, i.exiting = false) ∧
    ∀ now c course, e.course now c = .ok course → course.Steady → ∀ a ∈ course.moments,
      ∀ serial timers, a.engine.timers.popDue now = some (.removeImage serial, timers) →
        ∀ i ∈ a.engine.run.scene.images, i.serial = serial → i.exiting := by
  have hs := h.staged
  rw [hs.timers.live_eq]
  have hawaited : ∀ t ∈ e.timers.timers, ∀ slot, t.action.fills slot →
      ∃ i ∈ e.run.scene.images, i.slot = slot ∧ i.exiting ∧ ∃ r ∈ e.timers.timers,
        r.action = .removeImage i.serial ∧ r.due = t.due ∧ r.number < t.number := by
    intro t ht slot hfills
    obtain ⟨i, hi, hslot, hr⟩ := (hs.awaited t ht slot hfills).resolve_left not_false
    exact ⟨i, hi, hslot, hs.vacated t ht slot hfills i hi hslot, hr⟩
  have hremoved : e.timers.timers = [] → ∀ i ∈ e.run.scene.images, i.exiting = false := by
    intro hnone i hi
    refine Bool.eq_false_iff.2 fun hexiting => ?_
    obtain ⟨t, ht, -⟩ := hs.removed i hi hexiting
    exact absurd (hnone ▸ ht) List.not_mem_nil
  refine ⟨fun i hi hexiting => ?_, fun i hi hstays t ht haction => ?_, fun slot => ?_,
    fun t ht slot hfills => ⟨?_, hawaited t ht slot hfills, ?_⟩, hremoved, ?_⟩
  · refine Nat.le_antisymm (length_filter_le_one (hs.removedOnce.imp fun {a b} hab ha hb => ?_)) ?_
    · exact hab i.serial (of_decide_eq_true ha) (of_decide_eq_true hb)
    · obtain ⟨t, ht, haction⟩ := hs.removed i hi hexiting
      exact List.length_pos_of_mem (List.mem_filter.2 ⟨ht, decide_eq_true haction⟩)
  · have hexiting := (hs.removal t ht i.serial haction).2 i hi rfl
    exact Bool.false_ne_true (hstays.symm.trans hexiting)
  · exact length_filter_le_one (hs.filledOnce.imp fun {a b} hab ha => hab slot ha)
  · exact Scene.resident?_eq_none.2 (hs.vacated t ht slot hfills)
  · intro now action timers hdue
    refine Bool.eq_false_iff.2 fun hfirst => ?_
    obtain ⟨first, hlive, hnow, rfl, -, hbefore⟩ := Timers.of_popDue hdue
    rw [hs.timers.live_eq] at hlive hbefore
    obtain ⟨-, -, -, -, r, hr, -, hrdue, hnumber⟩ := hawaited first hlive slot hfirst
    have hnotAfter := Timer.notAfter_iff.1 (hbefore r hr (hrdue ▸ hnow))
    rw [hrdue] at hnotAfter
    rcases hnotAfter with hlt | ⟨-, hle⟩
    · exact Int64.lt_irrefl hlt
    · omega
  · intro now c course hcourse hsteady a ha serial timers hdue i hi hserial
    have hanytime : e.Staged fun _ => True := hs.imp fun _ _ => trivial
    have ha := Engine.staged_course hcourse hsteady (fun _ _ => trivial) hanytime a ha
    obtain ⟨timer, hlive, -, haction, -⟩ := Timers.of_popDue hdue
    rw [ha.timers.live_eq] at hlive
    exact (ha.removal timer hlive serial haction).2 i hi hserial

/-- While the second picture is still to come, the first one has its timer, and the slot is free. -/
theorem Gallery.timers_match_swapping :
    (swapping.timers.live.filter (·.action = .removeImage 1)).length = 1 ∧
      swapping.run.scene.resident? wall = none := by
  have hdawn : ∃ i ∈ swapping.run.scene.images, i.exiting ∧ i.serial = 1 := by decide +kernel
  have hwaiting : ∃ t ∈ swapping.timers.live, t.action.fills wall := by decide +kernel
  obtain ⟨hremoved, -, -, hawaited, -⟩ := Run.timers_match_images run_swapping
  obtain ⟨i, hi, hexiting, hserial⟩ := hdawn
  obtain ⟨t, ht, hfills⟩ := hwaiting
  exact ⟨hserial ▸ hremoved i hi hexiting, (hawaited t ht wall hfills).1⟩

end BranchingStory
