import BranchingStory.Proofs.Courses
import BranchingStory.Proofs.Timers
import Mathlib.Algebra.BigOperators.Group.List.Basic
import Mathlib.Algebra.GroupWithZero.Nat
import Mathlib.Algebra.Order.BigOperators.Group.List
import Mathlib.Algebra.Order.Group.Nat
/-!
# Letting timers fire comes to an end

A timer for an image does not schedule any other. One that leads on may have the story walk, and
each step of a walk schedules two timers at most that are due at once, both for images; the timer
for going on again is due later, unless time itself is at its end. So at any other time letting
timers fire ends with none that is due.
-/

namespace BranchingStory

/-- How many timers can fire because of one, itself included, when walks are of at most so many
steps. -/
def Deferred.share (steps : Nat) (action : Deferred) : Nat :=
  if action.isTransition then 2 * (steps + 1) + 1 else 1

/-- How many timers can fire at a time at most. -/
def Timers.outstanding (t : Timers) (now : Int64) (steps : Nat) : Nat :=
  ((t.due now).map fun timer => timer.action.share steps).sum

namespace Timers

variable {t t' : Timers} {now : Int64} {steps : Nat}

theorem outstanding_le_of_sublist (h : (t'.due now).Sublist (t.due now)) :
    t'.outstanding now steps ≤ t.outstanding now steps := by
  refine List.Sublist.sum_le_sum (h.map _) fun _ _ => Nat.zero_le _

theorem outstanding_cancel_le (t : Timers) (now : Int64) (steps : Nat) (p : Deferred → Bool) :
    (t.cancel p).outstanding now steps ≤ t.outstanding now steps :=
  outstanding_le_of_sublist (List.Sublist.filter _ List.filter_sublist)

theorem outstanding_schedule_le (t : Timers) (now due : Int64) (steps : Nat) {action : Deferred}
    (haction : action.isTransition = false ∨ ¬ due ≤ now) :
    (t.schedule due action).outstanding now steps ≤ t.outstanding now steps + 1 := by
  have hdue : (t.schedule due action).due now =
      if due ≤ now then ⟨due, t.lastNumber + 1, t.epoch, action⟩ :: t.due now else t.due now := by
    unfold Timers.due schedule
    rw [List.filter_cons]
    simp
  unfold outstanding
  rw [hdue]
  split
  · rename_i hnow
    have hstill := haction.resolve_right (not_not_intro hnow)
    simp [Deferred.share, hstill, Nat.add_comm]
  · exact Nat.le_succ _

/-- What fires is no longer outstanding. -/
theorem outstanding_of_popDue {action : Deferred} (h : t.popDue now = some (action, t')) :
    action.share steps + t'.outstanding now steps = t.outstanding now steps := by
  obtain ⟨timer, hlive, hnow, rfl, rfl, -⟩ := of_popDue h
  have hmem : timer ∈ t.due now := mem_due.2 ⟨hlive, hnow⟩
  have hdue : Timers.due { t with timers := t.timers.erase timer } now =
      (t.due now).erase timer := (List.erase_filter ..).symm
  unfold outstanding
  rw [hdue]
  exact List.sum_map_erase (fun timer : Timer => timer.action.share steps) hmem

end Timers

/-- The time after a duration is the sum of both, but neither the duration nor the sum goes beyond
the largest time there is. -/
theorem toInt_dueAfter (now : Int64) (duration : UInt64) :
    (dueAfter now duration).toInt =
      min (now.toInt + min (duration.toNat : Int) Int64.maxValue.toInt) Int64.maxValue.toInt := by
  have hlt := now.toInt_lt
  have hle := Int64.le_toInt now
  have hfarthest : Int64.maxValue.toInt = 2 ^ 63 - 1 := rfl
  unfold dueAfter
  rw [Int64.toInt_ofInt_of_le]
  all_goals omega

/-- A duration takes some time, except at the end of time. -/
theorem not_dueAfter_le {now : Int64} (hnow : now ≠ Int64.maxValue) {duration : UInt64}
    (hduration : 0 < duration) : ¬ dueAfter now duration ≤ now := by
  have hlt := now.toInt_lt
  have hpositive : 0 < duration.toNat := UInt64.lt_iff_toNat_lt.1 hduration
  have hearlier : now.toInt ≠ Int64.maxValue.toInt := fun heq => hnow (Int64.toInt_inj.1 heq)
  have hfarthest : Int64.maxValue.toInt = 2 ^ 63 - 1 := rfl
  rw [Int64.le_iff_toInt_le, toInt_dueAfter]
  omega

namespace Engine

variable {e : Engine} {now : Int64} {steps : Nat}

/-- A directive schedules two timers at most. -/
theorem outstanding_direct_le (e : Engine) (now : Int64) (steps : Nat) (node : String)
    (d : ImageDirective) :
    (e.direct now node d).timers.outstanding now steps ≤ e.timers.outstanding now steps + 2 := by
  have hcleared : (e.cleared d).timers.outstanding now steps ≤ e.timers.outstanding now steps :=
    Timers.outstanding_cancel_le ..
  have hd := directs e now node d
  generalize e.direct now node d = after at hd
  refine Nat.le_trans ?_ (Nat.add_le_add_right hcleared 2)
  cases hd with
  | empty => exact Nat.le_add_right ..
  | bring => exact Nat.le_add_right ..
  | replace => exact Nat.le_add_right ..
  | exchange _ resident =>
    have hremoval : ((e.cleared d).timers.schedule (dueAfter now ((e.cleared d).exitDuration d))
        (.removeImage resident.serial)).outstanding now steps ≤
          (e.cleared d).timers.outstanding now steps + 1 :=
      Timers.outstanding_schedule_le _ now _ steps (.inl rfl)
    unfold exchange
    cases d.timing with
    | crossfade => exact Nat.le_succ_of_le hremoval
    | sequential =>
      exact Nat.le_trans (Timers.outstanding_schedule_le _ now _ steps (.inl rfl))
        (Nat.succ_le_succ hremoval)

/-- Entering a node adds two timers at most to those that are due, except at the end of time. -/
theorem outstanding_enter_le (hnow : now ≠ Int64.maxValue) (e : Engine) (steps : Nat) (n : Node) :
    (e.enter now n).1.timers.outstanding now steps ≤ e.timers.outstanding now steps + 2 := by
  have hentered := enters e now n
  generalize e.enter now n = after at hentered
  cases hentered with
  | plain => exact Nat.le_add_right ..
  | image d => exact outstanding_direct_le e now steps n.id d
  | wait d _ next _ _ hduration due hdue =>
    have hlater : ¬ due ≤ now := hdue ▸ not_dueAfter_le hnow hduration
    have hschedule : ((e.direct now n.id d).timers.schedule due (.moveOn next)).due now =
        (e.direct now n.id d).timers.due now :=
      List.filter_cons_of_neg (by simp [hlater])
    refine Nat.le_trans (Timers.outstanding_le_of_sublist ?_)
      (outstanding_direct_le e now steps n.id d)
    change List.Sublist (Timers.due (Timers.schedule _ due (.moveOn next)) now) _
    rw [hschedule]

/-- What is kept by entering a node is kept by a walk. It may tell how many nodes were entered at
most. -/
theorem walk_induction {I : Nat → Engine → Prop} (hmore : ∀ {j k e}, j ≤ k → I j e → I k e)
    (henter : ∀ {k e} (id : String) (n : Node), I k e → I (k + 1) ((e.atNode id).enter now n).1)
    (chapter : Chapter) (most : Nat) {k : Nat} {e : Engine} (h : I k e) (id : String) :
    I (k + (most + 1)) (walk now chapter most e id) := by
  have hat (e : Engine) (id : String) : { e with run.node := id } = e.atNode id := rfl
  induction most generalizing k e id with
  | zero =>
    unfold walk
    cases chapter.node? id with
    | none => exact hmore (Nat.le_add_right ..) h
    | some n =>
      have hentered := henter id n h
      simp only [hat]
      generalize (e.atNode id).enter now n = entered at hentered
      rcases entered with ⟨after, _ | next⟩ <;> exact hentered
  | succ most ih =>
    unfold walk
    cases chapter.node? id with
    | none => exact hmore (Nat.le_add_right ..) h
    | some n =>
      have hentered := henter id n h
      simp only [hat]
      generalize (e.atNode id).enter now n = entered at hentered
      rcases entered with ⟨after, _ | next⟩
      · exact hmore (Nat.add_le_add_left (Nat.le_add_left ..) k) hentered
      · rw [show k + (most + 1 + 1) = k + 1 + (most + 1) by omega]
        exact ih hentered next

theorem outstanding_walk_le (hnow : now ≠ Int64.maxValue) (chapter : Chapter) (most steps : Nat)
    (e : Engine) (id : String) :
    (walk now chapter most e id).timers.outstanding now steps ≤
      e.timers.outstanding now steps + 2 * (most + 1) := by
  rw [show most + 1 = 0 + (most + 1) by omega]
  refine walk_induction (I := fun k after => after.timers.outstanding now steps ≤
    e.timers.outstanding now steps + 2 * k) ?_ ?_ chapter most (Nat.le_refl _) id
  · intro j k after hjk h
    omega
  · intro k after id n h
    have hentered := outstanding_enter_le hnow (after.atNode id) steps n
    change _ ≤ after.timers.outstanding now steps + 2 at hentered
    omega

theorem settings_walk (chapter : Chapter) (most : Nat) (e : Engine) (id : String) :
    (walk now chapter most e id).settings = e.settings := by
  refine walk_induction (I := fun _ after => after.settings = e.settings) ?_ ?_ chapter most
    (k := 0) rfl id
  · exact fun _ h => h
  · intro k after id n h
    obtain ⟨store, backlog, scene, timers, imageCounter, hframe⟩ :=
      (after.atNode id).enter_frame now n
    rw [hframe]
    exact h

theorem settings_fire (e : Engine) (now : Int64) (action : Deferred) :
    (e.fire now action).settings = e.settings := by
  cases action with
  | removeImage serial => rfl
  | showImage node d => rfl
  | moveOn next =>
    change (e.goTo now next).settings = _
    unfold goTo
    cases e.currentChapter? with
    | none => rfl
    | some chapter => exact settings_walk ..

/-- A timer that fires leaves fewer outstanding than there were with it. -/
theorem outstanding_fire_lt (hnow : now ≠ Int64.maxValue) {action : Deferred} {timers : Timers}
    (hdue : e.timers.popDue now = some (action, timers)) :
    ({ e with timers }.fire now action).timers.outstanding now e.settings.maxAutoSteps <
        e.timers.outstanding now e.settings.maxAutoSteps ∧
      ({ e with timers }.fire now action).settings = e.settings := by
  refine ⟨?_, settings_fire { e with timers } now action⟩
  rw [← Timers.outstanding_of_popDue hdue]
  cases action with
  | removeImage serial => exact Nat.lt_add_of_pos_left Nat.one_pos
  | showImage node d => exact Nat.lt_add_of_pos_left Nat.one_pos
  | moveOn next =>
    change (goTo _ now next).timers.outstanding now _ < 2 * (e.settings.maxAutoSteps + 1) + 1 + _
    unfold goTo walkFrom
    split
    · rename_i chapter _
      have hwalk := outstanding_walk_le hnow chapter e.settings.maxAutoSteps
        e.settings.maxAutoSteps { e with timers } next
      refine Nat.lt_of_le_of_lt hwalk ?_
      dsimp only
      omega
    · exact Nat.lt_add_of_pos_left (Nat.succ_pos _)

/-- Letting timers fire ends with none that is due when all that are outstanding may fire. -/
theorem popDue_pollWithin (hnow : now ≠ Int64.maxValue) {most : Nat}
    (hmost : e.timers.outstanding now e.settings.maxAutoSteps ≤ most) :
    (pollWithin now most e).engine.timers.popDue now = none := by
  induction most generalizing e with
  | zero =>
    cases hdue : e.timers.popDue now with
    | none => exact hdue
    | some popped =>
      have hlt := (outstanding_fire_lt hnow hdue).1
      exact absurd hlt (by omega)
  | succ most ih =>
    unfold pollWithin
    cases hdue : e.timers.popDue now with
    | none => exact hdue
    | some popped =>
      obtain ⟨action, timers⟩ := popped
      obtain ⟨hlt, hsettings⟩ := outstanding_fire_lt hnow hdue
      refine ih ?_
      change Timers.outstanding (fire _ now action).timers now
        (fire _ now action).settings.maxAutoSteps ≤ most
      rw [hsettings]
      omega

/-- A poll may let all timers fire that can. -/
theorem outstanding_le_pollLimit (e : Engine) (now : Int64) :
    e.timers.outstanding now e.settings.maxAutoSteps ≤ e.pollLimit := by
  refine Nat.le_add_left_of_le ?_
  have hshare : ∀ share ∈ (e.timers.due now).map fun timer =>
      timer.action.share e.settings.maxAutoSteps,
      share ≤ 2 * (e.settings.maxAutoSteps + 1) + 1 := by
    intro share hmem
    obtain ⟨timer, -, rfl⟩ := List.mem_map.1 hmem
    unfold Deferred.share
    split
    · exact Nat.le_refl _
    · exact Nat.le_add_left 1 _
  have hsum := List.sum_le_card_nsmul _ _ hshare
  rw [List.length_map, Nat.nsmul_eq_mul] at hsum
  exact Nat.le_trans hsum (Nat.mul_le_mul_right _ (List.length_filter_le ..))

/-- A poll ends with no timer that is due, except at the end of time. -/
theorem popDue_poll (hnow : now ≠ Int64.maxValue) :
    (e.poll now).engine.timers.popDue now = none :=
  popDue_pollWithin hnow (e.outstanding_le_pollLimit now)

end Engine

end BranchingStory
