import BranchingStory.Proofs.Images
/-!
# Saving instead of waiting

A save goes through the timers that are still to fire in the order in which they would, and does to
its own copy of the scene what they would do. Letting them fire first and saving then comes to the
same, since every image on its way out has its timer among them.
-/

namespace BranchingStory

/-! ## Firing in order -/

namespace Scene

/-- What is on its way out after some timers was so before, and none of them was for it. -/
theorem exiting_afterTimers {actions : List Deferred} {before settled : Scene × UInt64}
    (hsettled : actions.foldlM afterTimer before = .ok settled) {i : StageImage}
    (hi : i ∈ settled.1.images) (hexiting : i.exiting) :
    i ∈ before.1.images ∧ .removeImage i.serial ∉ actions := by
  induction actions generalizing before with
  | nil =>
    cases hsettled
    exact ⟨hi, List.not_mem_nil⟩
  | cons action rest ih =>
    obtain ⟨next, hnext, hlater⟩ := foldlM_cons_eq_ok.1 hsettled
    obtain ⟨hstep, hrest⟩ := ih hlater
    cases action with
    | removeImage serial =>
      cases hnext
      obtain ⟨hmem, hserial⟩ := List.mem_filter.1 hstep
      have hne : i.serial ≠ serial := of_decide_eq_true hserial
      exact ⟨hmem, by simp [hne, hrest]⟩
    | showImage node d =>
      obtain ⟨-, rfl⟩ := afterTimer_showImage.1 hnext
      refine ⟨?_, by simp [hrest]⟩
      rcases List.mem_append.1 hstep with hmem | hmem
      · exact List.mem_of_mem_filter hmem
      · obtain rfl := List.mem_singleton.1 hmem
        cases hexiting
    | moveOn next =>
      cases hnext
      exact ⟨hstep, by simp [hrest]⟩

end Scene

namespace Timers

/-- The first timer to fire of those that are due is the first of them in their order. -/
theorem popDue_of_perm {t : Timers} (h : t.Sound) {now : Int64} {first : Timer} {rest : List Timer}
    (hperm : (first :: rest).Perm t.timers) (hsorted : (first :: rest).Pairwise (·.notAfter ·))
    (hdue : ∀ timer ∈ t.timers, timer.due ≤ now) :
    t.popDue now = some (first.action, { t with timers := t.timers.erase first }) := by
  have hfirst : first ∈ t.timers := hperm.subset (.head _)
  cases hpop : t.popDue now with
  | none =>
    exact absurd (hdue first hfirst) (popDue_eq_none.1 hpop first (h.live_eq ▸ hfirst))
  | some popped =>
    obtain ⟨action, t'⟩ := popped
    obtain ⟨timer, hlive, -, rfl, rfl, hbefore⟩ := of_popDue hpop
    rw [h.live_eq] at hlive hbefore
    -- each of the two fires no later than the other, so they have the same number
    have hnumber : timer.number = first.number := by
      refine Timer.number_eq_of_notAfter (hbefore first hfirst (hdue first hfirst)) ?_
      rcases List.mem_cons.1 (hperm.symm.subset hlive) with rfl | hmem
      · exact Timer.notAfter_refl _
      · exact (List.pairwise_cons.1 hsorted).1 timer hmem
    rw [h.eq_of_number hlive hfirst hnumber]

end Timers

namespace Engine

/-- The engine with a scene and the last serial number in it, and with no timer left. -/
def settledAs (e : Engine) (settled : Scene × UInt64) : Engine :=
  { e with run.scene := settled.1, imageCounter := settled.2, timers.timers := [] }

/-- A timer for an image does to the engine what it does to the copy in a save. -/
theorem fire_of_afterTimer {e : Engine} (now : Int64) {action : Deferred}
    (hstill : action.isTransition = false) {next : Scene × UInt64}
    (hnext : Scene.afterTimer (e.run.scene, e.imageCounter) action = .ok next) :
    e.fire now action = { e with run.scene := next.1, imageCounter := next.2 } := by
  cases action with
  | removeImage serial =>
    cases hnext
    rfl
  | showImage node d =>
    obtain ⟨-, rfl⟩ := Scene.afterTimer_showImage.1 hnext
    rfl
  | moveOn next => cases hstill

/-- Letting all timers fire when all are due does what they were for, one after the other in their
order. -/
theorem pollWithin_of_perm {now : Int64} {most : Nat} {e : Engine} (h : e.timers.Sound)
    {sorted : List Timer} (hperm : sorted.Perm e.timers.timers)
    (hsorted : sorted.Pairwise (·.notAfter ·)) (hdue : ∀ t ∈ e.timers.timers, t.due ≤ now)
    (hstill : ∀ t ∈ e.timers.timers, t.action.isTransition = false) (hmost : sorted.length ≤ most)
    {settled : Scene × UInt64} (hsettled : (sorted.map (·.action)).foldlM Scene.afterTimer
      (e.run.scene, e.imageCounter) = .ok settled) :
    (pollWithin now most e).engine = e.settledAs settled := by
  induction sorted generalizing e most with
  | nil =>
    have hnone : e.timers.timers = [] := hperm.symm.eq_nil
    have hpop : e.timers.popDue now = none := by
      refine Timers.popDue_eq_none.2 fun t ht => ?_
      rw [h.live_eq, hnone] at ht
      exact absurd ht List.not_mem_nil
    cases hsettled
    have hengine : e.settledAs (e.run.scene, e.imageCounter) = e := by
      unfold settledAs
      simp only [← hnone]
    rw [hengine]
    cases most with
    | zero => rfl
    | succ most => simp [pollWithin, hpop]
  | cons first rest ih =>
    obtain ⟨most, rfl⟩ : ∃ m, most = m + 1 := ⟨most - 1, by simp at hmost; omega⟩
    have hpop := Timers.popDue_of_perm h hperm hsorted hdue
    have hfirst : first ∈ e.timers.timers := hperm.subset (.head _)
    have herase : (e.timers.timers.erase first).Sublist e.timers.timers := List.erase_sublist
    obtain ⟨next, hnext, hlater⟩ := Scene.foldlM_cons_eq_ok.1 hsettled
    let popped : Engine := { e with timers.timers := e.timers.timers.erase first }
    have hfire : popped.fire now first.action =
        { popped with run.scene := next.1, imageCounter := next.2 } :=
      fire_of_afterTimer now (hstill first hfirst) hnext
    rw [pollWithin, hpop]
    dsimp only [settledFrom]
    rw [hfire]
    refine ih (h.of_sublist herase) ?_ (List.pairwise_cons.1 hsorted).2
      (fun t ht => hdue t (herase.subset ht)) (fun t ht => hstill t (herase.subset ht))
      (Nat.le_of_succ_le_succ hmost) hlater
    exact (hperm.trans (List.perm_cons_erase hfirst)).cons_inv

/-- Letting all timers fire does what a save takes them to do. -/
theorem poll_eq_settledAs {now : Int64} {e : Engine} (h : e.timers.Sound)
    (hdue : ∀ t ∈ e.timers.live, t.due ≤ now)
    (hstill : ∀ t ∈ e.timers.live, t.action.isTransition = false) {settled : Scene × UInt64}
    (hsettled : e.timers.pending.foldlM Scene.afterTimer (e.run.scene, e.imageCounter) =
      .ok settled) : (e.poll now).engine = e.settledAs settled := by
  rw [h.live_eq] at hdue hstill
  have hperm : e.timers.inOrder.Perm e.timers.timers := h.live_eq ▸ e.timers.inOrder_perm
  refine pollWithin_of_perm h hperm e.timers.notAfter_inOrder hdue hstill ?_ hsettled
  have hmul : e.timers.timers.length ≤
      e.timers.timers.length * (2 * (e.settings.maxAutoSteps + 1) + 1) :=
    Nat.le_mul_of_pos_right _ (Nat.succ_pos _)
  exact hperm.length_eq.trans_le (Nat.le_add_left_of_le hmul)

/-- Once all timers for images have done what they are for, nothing is on its way out. -/
theorem Staged.dropExiting_settled {late : Timer → Prop} {e : Engine} (h : e.Staged late)
    {settled : Scene × UInt64}
    (hsettled : e.timers.pending.foldlM Scene.afterTimer (e.run.scene, e.imageCounter) =
      .ok settled) : settled.1.dropExiting = settled.1 := by
  refine congrArg Scene.mk (List.filter_eq_self.2 fun i hi => ?_)
  rw [Bool.not_eq_true']
  refine Bool.eq_false_iff.2 fun hexiting => ?_
  obtain ⟨hmem, hnone⟩ := Scene.exiting_afterTimers hsettled hi hexiting
  obtain ⟨t, ht, haction⟩ := h.removed i hmem hexiting
  refine hnone (List.mem_map.2 ⟨t, List.mem_mergeSort.2 ?_, haction⟩)
  rwa [h.timers.live_eq]

/-- Letting all timers for images fire, or saving at once, comes to the same scene. -/
theorem Staged.settledScene_poll {late : Timer → Prop} {e : Engine} (h : e.Staged late)
    (hroom : e.CanSettle) {now : Int64} (hdue : ∀ t ∈ e.timers.live, t.due ≤ now)
    (hstill : ∀ t ∈ e.timers.live, t.action.isTransition = false) :
    ∃ settled, (e.poll now).engine = e.settledAs settled ∧ e.settledScene = .ok settled.1 ∧
      e.timers.pending.foldlM Scene.afterTimer (e.run.scene, e.imageCounter) = .ok settled := by
  obtain ⟨scene, hscene⟩ := isOk_iff.1 (isOk_settledScene.2 hroom)
  obtain ⟨settled, hsettled, rfl⟩ := h.settledScene_eq_ok.1 hscene
  rw [h.dropExiting_settled hsettled] at hscene
  exact ⟨settled, poll_eq_settledAs h.timers hdue hstill hsettled, hscene, hsettled⟩

/-- Without timers and without images on their way out a save holds the scene as it is. -/
theorem settledScene_of_quiet {e : Engine} (htimers : e.timers.live = [])
    (hnone : ∀ i ∈ e.run.scene.images, i.exiting = false) :
    e.settledScene = .ok e.run.scene := by
  have hpending : e.timers.pending = [] := by
    rw [Timers.pending, htimers, List.mergeSort_nil, List.map_nil]
  rw [settledScene_eq_ok, hpending]
  refine ⟨_, rfl, congrArg Scene.mk ?_⟩
  refine List.filter_eq_self.2 fun i hi => ?_
  rw [hnone i hi]
  rfl

/-- When the scene is settled, the text of a save depends on the time played alone. -/
theorem save_of_settledScene {e : Engine} {scene : Scene} (hscene : e.settledScene = .ok scene)
    (now : Int64) : e.save now = (e.run.totalPlayTime now).map fun playTime =>
      ({ e.run with scene, playTime } : Playthrough).text := by
  unfold save snapshot
  rw [hscene]
  cases e.run.totalPlayTime now <;> rfl

end Engine

/-! ## Main result -/

/-- When all timers are for images, a save that can be made holds the very images that would be on
stage once all timers have fired. Letting them fire first does not change the text of a save, and at
another time only the time played in it is another. -/
theorem Run.save_eq_save_after_poll {s : Story} {log : List Node} {e : Engine} (h : Run s log e)
    (hstill : ∀ t ∈ e.timers.live, t.action.isTransition = false) {now : Int64}
    (hdue : ∀ t ∈ e.timers.live, t.due ≤ now) :
    (∀ savedAt, (e.save savedAt).isOk ↔ e.run.Totals savedAt ∧ e.CanSettle) ∧
    (e.CanSettle → e.settledScene = .ok (e.poll now).engine.run.scene ∧
      ∀ savedAt, (e.poll now).engine.save savedAt = e.save savedAt ∧
        e.save savedAt = (e.run.totalPlayTime savedAt).map fun playTime =>
          ({ (e.poll now).engine.run with playTime } : Playthrough).text) := by
  refine ⟨fun savedAt => Engine.isOk_save, fun hroom => ?_⟩
  have hs := h.staged
  obtain ⟨settled, hpoll, hscene, hsettled⟩ := hs.settledScene_poll hroom hdue hstill
  have hquiet : (e.settledAs settled).settledScene = .ok settled.1 := by
    refine Engine.settledScene_of_quiet rfl fun i hi => ?_
    have hdropped : i ∈ settled.1.dropExiting.images := by
      rwa [hs.dropExiting_settled hsettled]
    simpa using (List.mem_filter.1 hdropped).2
  have htext (savedAt : Int64) := Engine.save_of_settledScene hscene savedAt
  rw [hpoll]
  refine ⟨hscene, fun savedAt => ⟨?_, htext savedAt⟩⟩
  exact (Engine.save_of_settledScene hquiet savedAt).trans (htext savedAt).symm

/-- The second picture is still to come, and the save has it already. -/
theorem Gallery.save_swapping :
    swapping.settledScene = .ok (swapping.poll 700).engine.run.scene ∧
      (swapping.poll 700).engine.save 700 = swapping.save 700 ∧
      swapping.save 300 = .ok
        ({ (swapping.poll 700).engine.run with playTime := 300 } : Playthrough).text := by
  have hroom : swapping.CanSettle := by
    unfold Engine.CanSettle
    decide +kernel
  have hstill : ∀ t ∈ swapping.timers.live, t.action.isTransition = false := by decide +kernel
  have hdue : ∀ t ∈ swapping.timers.live, t.due ≤ 700 := by decide +kernel
  have htime : swapping.run.totalPlayTime 300 = .ok 300 := by decide +kernel
  obtain ⟨-, hsaves⟩ := Run.save_eq_save_after_poll run_swapping hstill hdue
  obtain ⟨hscene, htext⟩ := hsaves hroom
  refine ⟨hscene, (htext 700).1, (htext 300).2.trans ?_⟩
  rw [htime]
  rfl

end BranchingStory
