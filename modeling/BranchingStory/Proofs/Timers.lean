import BranchingStory.Play.Timers
import Mathlib.Data.List.Basic
/-!
# Timers in their order

What each operation leaves of the live timers, and which timer is the first to fire: one that is due
and that no other one that is due comes before.
-/

namespace BranchingStory

namespace Timer

theorem notAfter_iff {a b : Timer} :
    a.notAfter b ↔ a.due < b.due ∨ (a.due = b.due ∧ a.number ≤ b.number) := by
  simp [notAfter]

theorem notAfter_refl (a : Timer) : a.notAfter a :=
  notAfter_iff.2 (.inr ⟨rfl, Nat.le_refl _⟩)

theorem notAfter_total (a b : Timer) : a.notAfter b ∨ b.notAfter a := by
  simp only [notAfter_iff, Int64.lt_iff_toInt_lt, ← Int64.toInt_inj]
  omega

theorem notAfter_trans {a b c : Timer} (hab : a.notAfter b) (hbc : b.notAfter c) :
    a.notAfter c := by
  simp only [notAfter_iff, Int64.lt_iff_toInt_lt, ← Int64.toInt_inj] at *
  omega

/-- Two timers that each fire no later than the other have the same number. -/
theorem number_eq_of_notAfter {a b : Timer} (hab : a.notAfter b) (hba : b.notAfter a) :
    a.number = b.number := by
  simp only [notAfter_iff, Int64.lt_iff_toInt_lt, ← Int64.toInt_inj] at *
  omega

end Timer

namespace Timers

/-! ## Live timers -/

section Live
variable (t : Timers)

theorem mem_live {t : Timers} {timer : Timer} :
    timer ∈ t.live ↔ timer ∈ t.timers ∧ timer.epoch = t.epoch := by
  simp [live]

@[simp] theorem live_schedule (due : Int64) (action : Deferred) :
    (t.schedule due action).live = ⟨due, t.lastNumber + 1, t.epoch, action⟩ :: t.live :=
  List.filter_cons_of_pos (by simp [schedule])

@[simp] theorem live_cancel (p : Deferred → Bool) :
    (t.cancel p).live = t.live.filter fun timer => !p timer.action := by
  simp only [live, cancel, List.filter_filter]
  refine List.filter_congr fun timer _ => ?_
  by_cases h : timer.epoch = t.epoch <;> simp [h]

@[simp] theorem live_erase (timer : Timer) :
    ({ t with timers := t.timers.erase timer } : Timers).live = t.live.erase timer :=
  (List.erase_filter ..).symm

theorem transitionPending_eq_false {t : Timers} :
    t.transitionPending = false ↔ ∀ timer ∈ t.live, timer.action.isTransition = false := by
  simp [transitionPending]

end Live

/-! ## The first to fire -/

theorem first?_eq_none {l : List Timer} : first? l = none ↔ l = [] := by
  cases l with
  | nil => simp [first?]
  | cons a rest =>
    simp only [first?, reduceCtorEq, iff_false]
    cases first? rest with
    | none => simp
    | some b => dsimp only; split <;> simp

theorem mem_of_first? {l : List Timer} {timer : Timer} (h : first? l = some timer) : timer ∈ l := by
  induction l generalizing timer with
  | nil => cases h
  | cons a rest ih =>
    simp only [first?] at h
    cases hrest : first? rest with
    | none => simp_all
    | some b =>
      simp only [hrest] at h
      split at h
      · simp_all
      · exact .tail _ (ih (hrest.trans h))

/-- No timer comes before the first one. -/
theorem notAfter_of_first? {l : List Timer} {timer : Timer} (h : first? l = some timer) :
    ∀ other ∈ l, timer.notAfter other := by
  induction l generalizing timer with
  | nil => cases h
  | cons a rest ih =>
    simp only [first?] at h
    cases hrest : first? rest with
    | none =>
      obtain rfl : a = timer := by simpa [hrest] using h
      simp [first?_eq_none.1 hrest, Timer.notAfter_refl]
    | some b =>
      simp only [hrest] at h
      split at h
      · rename_i hab
        cases h
        intro other hother
        rcases List.mem_cons.1 hother with rfl | hother
        · exact Timer.notAfter_refl _
        · exact Timer.notAfter_trans hab (ih hrest other hother)
      · rename_i hab
        cases h
        intro other hother
        rcases List.mem_cons.1 hother with rfl | hother
        · exact (Timer.notAfter_total _ _).resolve_left hab
        · exact ih hrest other hother

theorem mem_due {t : Timers} {now : Int64} {timer : Timer} :
    timer ∈ t.due now ↔ timer ∈ t.live ∧ timer.due ≤ now := by
  simp [due, live, and_assoc]

/-- What fires is a live timer that is due, and no live timer that is due comes before it. -/
theorem of_popDue {t t' : Timers} {now : Int64} {action : Deferred}
    (h : t.popDue now = some (action, t')) :
    ∃ timer ∈ t.live, timer.due ≤ now ∧ timer.action = action ∧
      t' = { t with timers := t.timers.erase timer } ∧
      ∀ other ∈ t.live, other.due ≤ now → timer.notAfter other := by
  obtain ⟨timer, hfirst, hpair⟩ := Option.map_eq_some_iff.1 h
  cases hpair
  obtain ⟨hlive, hdue⟩ := mem_due.1 (mem_of_first? hfirst)
  exact ⟨timer, hlive, hdue, rfl, rfl, fun other hother hnow =>
    notAfter_of_first? hfirst other (mem_due.2 ⟨hother, hnow⟩)⟩

theorem popDue_eq_none {t : Timers} {now : Int64} :
    t.popDue now = none ↔ ∀ timer ∈ t.live, ¬ timer.due ≤ now := by
  simp only [popDue, Option.map_eq_none_iff, first?_eq_none, List.eq_nil_iff_forall_not_mem,
    mem_due, not_and]

/-! ## Their order -/

/-- The live timers in the order in which they fire. -/
def inOrder (t : Timers) : List Timer := t.live.mergeSort Timer.notAfter

theorem inOrder_perm (t : Timers) : t.inOrder.Perm t.live := List.mergeSort_perm ..

theorem notAfter_inOrder (t : Timers) : t.inOrder.Pairwise (·.notAfter ·) := by
  refine List.pairwise_mergeSort ?_ ?_ t.live
  · exact fun a b c hab hbc => Timer.notAfter_trans hab hbc
  · exact fun a b => by simpa using Timer.notAfter_total a b

end Timers

end BranchingStory
