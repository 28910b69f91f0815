import BranchingStory.Proofs.Staging
import BranchingStory.Proofs.Transitions
import Mathlib.Data.List.Nodup
/-!
# Which timers fire

Letting timers fire is a loop without a limit: as long as a timer is due, the first one fires, and
what it does may schedule others. `Drains` is that loop. It ends in the engine that a poll leaves,
except at the end of time, and its timers fire in their order: what is scheduled on the way is never
due before now, and has a larger number than whatever has fired.
-/

namespace BranchingStory

/-! ## What is scheduled on the way -/

/-- A duration leads to no earlier time. -/
theorem le_dueAfter (now : Int64) (duration : UInt64) : now ≤ dueAfter now duration := by
  have hlt := now.toInt_lt
  have hfarthest : Int64.maxValue.toInt = 2 ^ 63 - 1 := rfl
  rw [Int64.le_iff_toInt_le, toInt_dueAfter]
  omega

namespace Timers

/-- A timer that may have been scheduled at a time, after some others. One for going on is not due
yet, except at the end of time. -/
structure Schedules (t : Timers) (now : Int64) (timer : Timer) : Prop where
  epoch : timer.epoch = t.epoch
  number : t.lastNumber < timer.number
  due : now ≤ timer.due
  later : timer.action.isTransition → now ≠ Int64.maxValue → ¬ timer.due ≤ now

/-- Timers as they are after some were cancelled and others scheduled at a time. -/
structure Grows (now : Int64) (t t' : Timers) : Prop where
  epoch : t'.epoch = t.epoch
  lastNumber : t.lastNumber ≤ t'.lastNumber
  sound : t.Sound → t'.Sound
  mem : ∀ timer ∈ t'.timers, timer ∈ t.timers ∨ t.Schedules now timer

namespace Grows

variable {now : Int64} {t t' t'' : Timers}

theorem refl (now : Int64) (t : Timers) : t.Grows now t := ⟨rfl, Nat.le_refl _, id, fun _ => .inl⟩

theorem trans (h : t.Grows now t') (h' : t'.Grows now t'') : t.Grows now t'' where
  epoch := h'.epoch.trans h.epoch
  lastNumber := Nat.le_trans h.lastNumber h'.lastNumber
  sound := h'.sound ∘ h.sound
  mem timer ht := by
    rcases h'.mem timer ht with ht | ⟨hepoch, hnumber, hdue, hlater⟩
    · exact h.mem timer ht
    · exact .inr ⟨hepoch.trans h.epoch, Nat.lt_of_le_of_lt h.lastNumber hnumber, hdue, hlater⟩

theorem cancel (now : Int64) (t : Timers) (p : Deferred → Bool) : t.Grows now (t.cancel p) where
  epoch := rfl
  lastNumber := Nat.le_refl _
  sound h := h.of_sublist List.filter_sublist
  mem _ ht := .inl (List.mem_of_mem_filter ht)

theorem schedule (t : Timers) {due : Int64} (hdue : now ≤ due) {action : Deferred}
    (hlater : action.isTransition → now ≠ Int64.maxValue → ¬ due ≤ now) :
    t.Grows now (t.schedule due action) where
  epoch := rfl
  lastNumber := Nat.le_succ _
  sound h := h.schedule due action
  mem timer ht := by
    rcases List.mem_cons.1 ht with rfl | ht
    · exact .inr ⟨rfl, Nat.lt_succ_self _, hdue, hlater⟩
    · exact .inl ht

end Grows

end Timers

namespace Engine

variable {e : Engine} {now : Int64}

theorem grows_direct (e : Engine) (now : Int64) (node : String) (d : ImageDirective) :
    e.timers.Grows now (e.direct now node d).timers := by
  have hcleared : e.timers.Grows now (e.cleared d).timers := .cancel now _ _
  have hd := directs e now node d
  generalize e.direct now node d = after at hd
  refine hcleared.trans ?_
  cases hd with
  | empty => exact .refl now _
  | bring => exact .refl now _
  | replace => exact .refl now _
  | exchange _ resident =>
    have hdue := le_dueAfter now ((e.cleared d).exitDuration d)
    have hremoval : (e.cleared d).timers.Grows now ((e.cleared d).timers.schedule
        (dueAfter now ((e.cleared d).exitDuration d)) (.removeImage resident.serial)) :=
      .schedule _ hdue nofun
    unfold exchange
    cases d.timing with
    | crossfade => exact hremoval
    | sequential => exact hremoval.trans (.schedule _ hdue nofun)

theorem grows_enter (e : Engine) (now : Int64) (n : Node) :
    e.timers.Grows now (e.enter now n).1.timers := by
  have hentered := enters e now n
  generalize e.enter now n = after at hentered
  cases hentered with
  | plain => exact .refl now _
  | image d => exact grows_direct e now n.id d
  | wait d _ next _ _ hduration due hdue =>
    have hscheduled : (e.direct now n.id d).timers.Grows now
        ((e.direct now n.id d).timers.schedule due (.moveOn next)) := by
      rw [hdue]
      exact .schedule _ (le_dueAfter now _) fun _ hnow => not_dueAfter_le hnow hduration
    exact (grows_direct e now n.id d).trans hscheduled

theorem grows_goTo (e : Engine) (now : Int64) (id : String) :
    e.timers.Grows now (e.goTo now id).timers := by
  unfold goTo walkFrom
  split
  · rename_i chapter _
    refine walk_induction (I := fun _ after => e.timers.Grows now after.timers) (fun _ h => h) ?_
      chapter _ (k := 0) (.refl now _) id
    intro k after id n h
    exact h.trans (grows_enter (after.atNode id) now n)
  · exact .refl now _

theorem grows_fire (e : Engine) (now : Int64) (action : Deferred) :
    e.timers.Grows now (e.fire now action).timers := by
  cases action with
  | removeImage serial => exact .refl now _
  | showImage node d => exact .refl now _
  | moveOn next => exact grows_goTo e now next

end Engine

/-! ## Since the story was begun -/

/-- The engines that come of new ones over a story by calls and by loads of saves, with the number
of the last timer there had been when the story was last started, gone on with in another chapter,
or taken up. -/
inductive Begun (s : Story) : Nat → Engine → Prop
  | fresh (settings : Settings) (observers : Nat) : Begun s 0 { story := s, settings, observers }
  | call {mark : Nat} {e e' : Engine} {now : Int64} {c : Call} {answer : Answer}
      (he : Begun s mark e) (h : e.call now c = .ok (answer, e')) :
    Begun s (if c.startsAnew then e.timers.lastNumber else mark) e'
  | load {mark mark' : Nat} {e saved e' : Engine} {now savedAt : Int64} {text : String}
      {heard : List Notice} (he : Begun s mark e) (hsaved : Begun s mark' saved)
      (hsave : saved.save savedAt = .ok text) (h : e.load now text = .ok (e', heard)) :
    Begun s e.timers.lastNumber e'

theorem Begun.after {s : Story} {mark : Nat} {e : Engine} (h : Begun s mark e) {now : Int64}
    {c : Call} (hc : (e.call now c).isOk) :
    Begun s (if c.startsAnew then e.timers.lastNumber else mark) (e.after now c) := by
  unfold Engine.after
  cases hcall : e.call now c with
  | ok answered => exact .call h hcall
  | error refusal =>
    rw [hcall] at hc
    cases hc

theorem Begun.reachable {s : Story} {mark : Nat} {e : Engine} (h : Begun s mark e) :
    Reachable s e := by
  induction h with
  | fresh settings observers => exact .fresh settings observers
  | call _ h ih => exact .call ih h
  | load _ _ hsave h ihe ihsaved => exact .load ihe ihsaved hsave h

/-- Timers in their order, all of them with larger numbers than a mark. -/
structure Timers.Since (mark : Nat) (t : Timers) : Prop where
  sound : t.Sound
  mark_le : mark ≤ t.lastNumber
  lt_number : ∀ timer ∈ t.timers, mark < timer.number

namespace Timers.Since

variable {mark : Nat} {t t' : Timers} {now : Int64}

theorem grows (h : t.Since mark) (hgrows : t.Grows now t') : t'.Since mark where
  sound := hgrows.sound h.sound
  mark_le := Nat.le_trans h.mark_le hgrows.lastNumber
  lt_number timer ht := by
    rcases hgrows.mem timer ht with ht | hscheduled
    · exact h.lt_number timer ht
    · exact Nat.lt_of_le_of_lt h.mark_le hscheduled.number

theorem erase (h : t.Since mark) (timer : Timer) :
    Since mark { t with timers := t.timers.erase timer } where
  sound := h.sound.of_sublist List.erase_sublist
  mark_le := h.mark_le
  lt_number other ht := h.lt_number other (List.mem_of_mem_erase ht)

theorem of_nil (h : t.timers = []) : t.Since t.lastNumber where
  sound := .of_nil h
  mark_le := Nat.le_refl _
  lt_number timer ht := absurd ht (by simp [h])

/-- A new epoch has no timers yet. -/
theorem nextEpoch (t : Timers) : t.nextEpoch.Since t.lastNumber := of_nil (t := t.nextEpoch) rfl

end Timers.Since

theorem Follows.since {mark : Nat} {now : Int64} {a b : Moment} (h : Follows now a b)
    (ha : a.engine.timers.Since mark) : b.engine.timers.Since mark := by
  rcases h with ⟨hchapter, honward, hnode⟩ | hfires
  · rename_i id n
    exact ha.grows (Engine.grows_enter (a.engine.atNode id) now n)
  · cases hfires with
    | remove hdue =>
      obtain ⟨timer, -, -, -, rfl, -⟩ := Timers.of_popDue hdue
      exact ha.erase timer
    | bring hdue =>
      obtain ⟨timer, -, -, -, rfl, -⟩ := Timers.of_popDue hdue
      exact ha.erase timer
    | moveOn hdue =>
      obtain ⟨timer, -, -, -, rfl, -⟩ := Timers.of_popDue hdue
      exact ha.erase timer

theorem Opens.since {mark : Nat} {e : Engine} {now : Int64} {c : Call} {a : Moment}
    (h : Opens e now c a) (he : e.timers.Since mark) :
    a.engine.timers.Since (if c.startsAnew then e.timers.lastNumber else mark) := by
  cases h with
  | anew c hc =>
    rcases hc with rfl | ⟨stage, chapter, rfl⟩ <;> exact .nextEpoch _
  | movedInto => exact .nextEpoch _
  | _ => exact he

theorem Begun.since {s : Story} {mark : Nat} {e : Engine} (h : Begun s mark e) :
    e.timers.Since mark := by
  induction h with
  | fresh settings observers => exact .of_nil (t := {}) rfl
  | call _ h ih =>
    obtain ⟨course, hcourse, rfl⟩ := Engine.course_of_call h
    obtain ⟨m, hm, hfinal⟩ := course.exists_final
    rw [← hfinal]
    exact Engine.course_keeps (I := fun m => m.engine.timers.Since _) hcourse
      ((Engine.course_opens hcourse).1.since ih) (fun a b hab ha => hab.since ha) m hm
  | load _ _ _ h =>
    obtain ⟨p, -, rfl⟩ := Engine.of_load h
    exact .nextEpoch _

/-! ## Letting timers fire -/

/-- The engine without a timer. -/
def Engine.without (e : Engine) (timer : Timer) : Engine :=
  { e with timers.timers := e.timers.timers.erase timer }

/-- What comes of letting timers fire as long as one is due: the timers that fire and the nodes that
are entered, each in their order, and the engine after that. -/
inductive Drains (now : Int64) : Engine → List Timer → List Node → Engine → Prop
  | done {e : Engine} (h : Timers.first? (e.timers.due now) = none) : Drains now e [] [] e
  | fire {e last : Engine} {timer : Timer} {fired : List Timer} {entered : List Node}
      (h : Timers.first? (e.timers.due now) = some timer)
      (hrest : Drains now ((e.without timer).fire now timer.action) fired entered last) :
    Drains now e (timer :: fired)
      (((e.without timer).fired now timer.action).filterMap (·.entered) ++ entered) last

/-- Whether a timer fires before another one. -/
def Timer.Before (a b : Timer) : Prop := a.due < b.due ∨ (a.due = b.due ∧ a.number < b.number)

/-- Whether a node has an image for the slot that a timer is to fill. -/
def Node.Supersedes (n : Node) (timer : Timer) : Prop :=
  ∃ d, n.directive? = some d ∧ timer.action.fills d.picture.slot

theorem Timers.popDue_of_first? {t : Timers} {now : Int64} {timer : Timer}
    (h : first? (t.due now) = some timer) :
    t.popDue now = some (timer.action, { t with timers := t.timers.erase timer }) := by
  rw [popDue, h]
  rfl

/-- The first timer to fire comes before all others. -/
theorem Timers.before_of_first? {t : Timers} (hsound : t.Sound) {now : Int64} {timer : Timer}
    (h : first? (t.due now) = some timer) : ∀ other ∈ t.timers.erase timer, timer.Before other := by
  intro other hother
  obtain ⟨hlive, hnow⟩ := mem_due.1 (mem_of_first? h)
  obtain ⟨hne, hmem⟩ := hsound.nodup.mem_erase_iff.1 hother
  by_cases hdue : other.due ≤ now
  · have hother' : other ∈ t.due now := mem_due.2 ⟨hsound.live_eq ▸ hmem, hdue⟩
    refine (Timer.notAfter_iff.1 (notAfter_of_first? h other hother')).imp_right ?_
    rintro ⟨hsame, hle⟩
    refine ⟨hsame, Nat.lt_of_le_of_ne hle fun hnumber => hne ?_⟩
    exact hsound.eq_of_number hmem (mem_live.1 hlive).1 hnumber.symm
  · exact .inl (Int64.lt_of_le_of_lt hnow (Int64.not_le.1 hdue))

namespace Engine

variable {e : Engine} {now : Int64}

/-- A poll that lets all outstanding timers fire is the loop without a limit. -/
theorem drains_pollWithin (hnow : now ≠ Int64.maxValue) {most : Nat}
    (hmost : e.timers.outstanding now e.settings.maxAutoSteps ≤ most) :
    ∃ fired entered, Drains now e fired entered (pollWithin now most e).engine ∧
      (pollWithin now most e).fired = fired.length := by
  induction most generalizing e with
  | zero =>
    cases hfirst : Timers.first? (e.timers.due now) with
    | none => exact ⟨[], [], .done hfirst, rfl⟩
    | some timer =>
      have hlt := (outstanding_fire_lt hnow (Timers.popDue_of_first? hfirst)).1
      exact absurd hlt (by omega)
  | succ most ih =>
    unfold pollWithin
    cases hfirst : Timers.first? (e.timers.due now) with
    | none =>
      have hpop : e.timers.popDue now = none := by rw [Timers.popDue, hfirst]; rfl
      rw [hpop]
      exact ⟨[], [], .done hfirst, rfl⟩
    | some timer =>
      have hpop := Timers.popDue_of_first? hfirst
      obtain ⟨hlt, hsettings⟩ := outstanding_fire_lt hnow hpop
      rw [hpop]
      have hrest : ((e.without timer).fire now timer.action).timers.outstanding now
          ((e.without timer).fire now timer.action).settings.maxAutoSteps ≤ most := by
        change _ < _ at hlt
        rw [show ((e.without timer).fire now timer.action).settings = e.settings from hsettings]
        exact Nat.le_of_lt_succ (Nat.lt_of_lt_of_le hlt hmost)
      obtain ⟨fired, entered, hdrains, hlength⟩ := ih hrest
      exact ⟨timer :: fired, _, .fire hfirst hdrains, congrArg Nat.succ hlength⟩

/-! ### What becomes of a timer -/

/-- A directive only cancels what was to come into its slot. -/
theorem mem_live_direct {timer : Timer} (h : timer ∈ e.timers.live) {node : String}
    {d : ImageDirective} (hother : ¬ timer.action.fills d.picture.slot) :
    timer ∈ (e.direct now node d).timers.live := by
  have hcleared : timer ∈ (e.cleared d).timers.live := by
    rw [cleared, Timers.live_cancel]
    exact List.mem_filter.2 ⟨h, by simp [hother]⟩
  have hd := directs e now node d
  generalize e.direct now node d = after at hd
  cases hd with
  | empty => exact hcleared
  | bring => exact hcleared
  | replace => exact hcleared
  | exchange _ resident =>
    unfold exchange
    cases d.timing with
    | crossfade =>
      change timer ∈ (Timers.schedule _ _ _).live
      rw [Timers.live_schedule]
      exact .tail _ hcleared
    | sequential =>
      change timer ∈ (Timers.schedule (Timers.schedule _ _ _) _ _).live
      rw [Timers.live_schedule, Timers.live_schedule]
      exact .tail _ (.tail _ hcleared)

theorem mem_live_enter {timer : Timer} (h : timer ∈ e.timers.live) (now : Int64) (n : Node) :
    timer ∈ (e.enter now n).1.timers.live ∨ n.Supersedes timer := by
  have hentered := enters e now n
  generalize e.enter now n = after at hentered
  cases hentered with
  | plain => exact .inl h
  | image d hd =>
    by_cases hfills : timer.action.fills d.picture.slot
    · exact .inr ⟨d, hd, hfills⟩
    · exact .inl (mem_live_direct h hfills)
  | wait d hd next _ _ _ due =>
    by_cases hfills : timer.action.fills d.picture.slot
    · exact .inr ⟨d, hd, hfills⟩
    · left
      change timer ∈ (Timers.schedule _ _ _).live
      rw [Timers.live_schedule]
      exact .tail _ (mem_live_direct h hfills)

theorem mem_live_walked {timer : Timer} (chapter : Chapter) (steps : Nat)
    (h : timer ∈ e.timers.live) (id : String) :
    timer ∈ (e.through (walked now chapter steps e id)).timers.live ∨
      ∃ n ∈ (walked now chapter steps e id).filterMap (·.entered), n.Supersedes timer := by
  refine walked_induction now (P := fun e _ l => timer ∈ e.timers.live →
    timer ∈ (e.through l).timers.live ∨ ∃ n ∈ l.filterMap (·.entered), n.Supersedes timer)
    ?_ ?_ steps e id h
  · exact fun e id h => .inl h
  · intro e id n after onward rest hnode hafter hrest h
    have hentered := mem_live_enter (e := e.atNode id) h now n
    rw [hafter] at hentered
    rcases hentered with h | hn
    · rcases hrest with rfl | ⟨next, -, hrest⟩
      · exact .inl h
      · refine (hrest h).imp_right ?_
        rintro ⟨n', hn', hd⟩
        exact ⟨n', .tail _ hn', hd⟩
    · exact .inr ⟨n, .head _, hn⟩

/-- While a timer does what it was for, another one stays, unless a node is entered whose image is
for the same slot. -/
theorem mem_live_fire {timer : Timer} (h : timer ∈ e.timers.live) (now : Int64)
    (action : Deferred) :
    timer ∈ (e.fire now action).timers.live ∨
      ∃ n ∈ (e.fired now action).filterMap (·.entered), n.Supersedes timer := by
  cases action with
  | removeImage serial => exact .inl h
  | showImage node d => exact .inl h
  | moveOn next =>
    have hwent : timer ∈ (e.through (e.wentTo now next)).timers.live ∨
        ∃ n ∈ (e.wentTo now next).filterMap (·.entered), n.Supersedes timer := by
      unfold wentTo
      split
      · exact mem_live_walked _ _ h next
      · exact .inl h
    rw [through_wentTo] at hwent
    exact hwent

end Engine

namespace Drains

variable {now : Int64} {e last : Engine} {fired : List Timer} {entered : List Node}

/-- What is true of all timers that there are, and of all that may come, is true of those that
fire. -/
theorem forall_fired {P : Timer → Prop} {mark : Nat} (h : Drains now e fired entered last)
    (hmark : mark ≤ e.timers.lastNumber) (hthere : ∀ t ∈ e.timers.timers, P t)
    (hcome : ∀ t : Timer, mark < t.number → now ≤ t.due → P t) :
    ∀ t ∈ fired, P t ∧ t.due ≤ now := by
  induction h with
  | done => exact fun t ht => absurd ht List.not_mem_nil
  | @fire e last timer fired entered hfirst hrest ih =>
    have hgrows := (e.without timer).grows_fire now timer.action
    obtain ⟨hlive, hnow⟩ := Timers.mem_due.1 (Timers.mem_of_first? hfirst)
    intro t ht
    rcases List.mem_cons.1 ht with rfl | ht
    · exact ⟨hthere t (Timers.mem_live.1 hlive).1, hnow⟩
    · refine ih (Nat.le_trans hmark hgrows.lastNumber) (fun t ht => ?_) t ht
      rcases hgrows.mem t ht with ht | hscheduled
      · exact hthere t (List.mem_of_mem_erase ht)
      · exact hcome t (Nat.lt_of_le_of_lt hmark hscheduled.number) hscheduled.due

/-- Timers fire in their order. -/
theorem pairwise_before (h : Drains now e fired entered last) (hsound : e.timers.Sound) :
    fired.Pairwise Timer.Before := by
  induction h with
  | done => exact .nil
  | @fire e last timer fired entered hfirst hrest ih =>
    have hgrows := (e.without timer).grows_fire now timer.action
    have hsound' : (e.without timer).timers.Sound := hsound.of_sublist List.erase_sublist
    obtain ⟨hlive, hnow⟩ := Timers.mem_due.1 (Timers.mem_of_first? hfirst)
    have hnumber : timer.number ≤ (e.without timer).timers.lastNumber :=
      hsound.numbered timer (Timers.mem_live.1 hlive).1
    have hcome (t : Timer) (hlater : timer.number < t.number) (hdue : now ≤ t.due) :
        timer.Before t := by
      rcases Int64.lt_or_eq_of_le (Int64.le_trans hnow hdue) with hlt | heq
      · exact .inl hlt
      · exact .inr ⟨heq, hlater⟩
    refine List.pairwise_cons.2 ⟨fun t ht => ?_, ih (hgrows.sound hsound')⟩
    refine (hrest.forall_fired (Nat.le_trans hnumber hgrows.lastNumber) (fun t ht => ?_) hcome
      t ht).1
    rcases hgrows.mem t ht with ht | hscheduled
    · exact Timers.before_of_first? hsound hfirst t ht
    · exact hcome t (Nat.lt_of_le_of_lt hnumber hscheduled.number) hscheduled.due

/-- A timer that is due fires, unless a node is entered whose image is for the same slot. -/
theorem fires_of_due (h : Drains now e fired entered last) {timer : Timer}
    (hlive : timer ∈ e.timers.live) (hdue : timer.due ≤ now) :
    timer ∈ fired ∨ ∃ n ∈ entered, n.Supersedes timer := by
  induction h with
  | done hnone =>
    have hmem := Timers.mem_due.2 ⟨hlive, hdue⟩
    rw [Timers.first?_eq_none.1 hnone] at hmem
    exact absurd hmem List.not_mem_nil
  | @fire e last first fired entered hfirst hrest ih =>
    by_cases hsame : timer = first
    · exact .inl (hsame ▸ .head _)
    · have hstill : timer ∈ (e.without first).timers.live := by
        rw [Engine.without, Timers.live_erase]
        exact (List.mem_erase_of_ne hsame).2 hlive
      rcases Engine.mem_live_fire hstill now first.action with hlive | ⟨n, hn, hd⟩
      · rcases ih hlive with hfired | ⟨n, hn, hd⟩
        · exact .inl (.tail _ hfired)
        · exact .inr ⟨n, List.mem_append_right _ hn, hd⟩
      · exact .inr ⟨n, List.mem_append_left _ hn, hd⟩

end Drains

/-! ### Transitions -/

/-- The timers for going on that are due. -/
def Timers.transitions (t : Timers) (now : Int64) : List Timer :=
  (t.due now).filter (·.action.isTransition)

/-- What is scheduled on the way does not lead on at once, except at the end of time. -/
theorem Timers.Grows.length_transitions_le {now : Int64} {t t' : Timers} (h : t.Grows now t')
    (hsound : t.Sound) (hnow : now ≠ Int64.maxValue) :
    (t'.transitions now).length ≤ (t.transitions now).length := by
  have hsound' := h.sound hsound
  have hnodup : (t'.transitions now).Nodup := (hsound'.nodup.filter _).filter _
  refine (List.subperm_of_subset hnodup fun timer ht => ?_).length_le
  obtain ⟨ht, htransition⟩ := List.mem_filter.1 ht
  obtain ⟨hlive, hdue⟩ := mem_due.1 ht
  rcases h.mem timer (mem_live.1 hlive).1 with hold | hscheduled
  · rw [← hsound.live_eq] at hold
    exact List.mem_filter.2 ⟨mem_due.2 ⟨hold, hdue⟩, htransition⟩
  · exact absurd hdue (hscheduled.later htransition hnow)

/-- No more transitions fire than were due. -/
theorem Drains.length_transitions_le {now : Int64} {e last : Engine} {fired : List Timer}
    {entered : List Node} (h : Drains now e fired entered last) (hsound : e.timers.Sound)
    (hnow : now ≠ Int64.maxValue) :
    (fired.filter (·.action.isTransition)).length ≤ (e.timers.transitions now).length := by
  induction h with
  | done => exact Nat.zero_le _
  | @fire e last timer fired entered hfirst hrest ih =>
    have hgrows := (e.without timer).grows_fire now timer.action
    have hsound' : (e.without timer).timers.Sound := hsound.of_sublist List.erase_sublist
    have hle := Nat.le_trans (ih (hgrows.sound hsound'))
      (hgrows.length_transitions_le hsound' hnow)
    have herase : (e.without timer).timers.transitions now =
        (e.timers.transitions now).erase timer := by
      unfold Timers.transitions Timers.due Engine.without
      rw [List.erase_filter, List.erase_filter]
    rw [herase] at hle
    by_cases htransition : timer.action.isTransition
    · have hmem : timer ∈ e.timers.transitions now :=
        List.mem_filter.2 ⟨Timers.mem_of_first? hfirst, htransition⟩
      have hpos := List.length_pos_of_mem hmem
      rw [List.length_erase_of_mem hmem] at hle
      rw [List.filter_cons, if_pos htransition, List.length_cons]
      omega
    · rw [List.filter_cons, if_neg htransition]
      exact Nat.le_trans hle List.erase_sublist.length_le

/-! ## Main result -/

/-- Except at the end of time, letting timers fire comes to an end, which is where a poll ends. They
fire in order, when they are due, and one of them leads on at most. Whatever is due fires once, but
for an image whose slot gets another one meanwhile, and in the end nothing is due. -/
theorem Begun.poll_drains {s : Story} {mark : Nat} {e : Engine} (h : Begun s mark e) {now : Int64}
    (hnow : now < Int64.maxValue) :
    ∃ fired entered, Drains now e fired entered (e.poll now).engine ∧
      (e.poll now).fired = fired.length ∧
      (fired.filter (·.action.isTransition)).length ≤ 1 ∧
      (fired.Pairwise fun a b => a.due < b.due ∨ (a.due = b.due ∧ a.number < b.number)) ∧
      (∀ t ∈ fired, t.due ≤ now ∧ mark < t.number) ∧
      (∀ t ∈ e.timers.live, t.due ≤ now → fired.count t = 1 ∨
        (t ∉ fired ∧ ∃ n ∈ entered, ∃ d, n.directive? = some d ∧
          t.action.fills d.picture.slot)) ∧
      ∀ t ∈ (e.poll now).engine.timers.live, ¬ t.due ≤ now := by
  have hnow' : now ≠ Int64.maxValue := fun heq => Int64.lt_irrefl (heq ▸ hnow)
  have hsince := h.since
  obtain ⟨fired, entered, hdrains, hlength⟩ :=
    Engine.drains_pollWithin hnow' (e.outstanding_le_pollLimit now)
  have hordered := hdrains.pairwise_before hsince.sound
  have hnodup : fired.Nodup := hordered.imp fun {a b} hab heq => by
    subst heq
    rcases hab with hlt | ⟨-, hlt⟩
    · exact Int64.lt_irrefl hlt
    · exact Nat.lt_irrefl _ hlt
  refine ⟨fired, entered, hdrains, hlength, ?_, hordered, fun t ht => ?_, fun t hlive hdue => ?_,
    Timers.popDue_eq_none.1 (Engine.popDue_poll hnow')⟩
  · refine Nat.le_trans (hdrains.length_transitions_le hsince.sound hnow') ?_
    refine Nat.le_trans (List.Sublist.length_le ?_) h.reachable.paced.single
    have hsub : (e.timers.due now).Sublist e.timers.live := by
      rw [hsince.sound.live_eq]
      exact List.filter_sublist
    exact hsub.filter _
  · exact (hdrains.forall_fired (P := fun t => mark < t.number) hsince.mark_le hsince.lt_number
      (fun _ hlater _ => hlater) t ht).symm
  · by_cases hfired : t ∈ fired
    · exact .inl (List.count_eq_one_of_mem hnodup hfired)
    · exact .inr ⟨hfired, (hdrains.fires_of_due hlive hdue).resolve_left hfired⟩

/-- The first picture goes, and the second one comes. -/
theorem Gallery.drains_swapping :
    ∃ fired entered, Drains 700 swapping fired entered hung ∧ fired.length = 2 ∧
      (∀ t ∈ fired, t.due ≤ 700 ∧ 0 < t.number) ∧ ∀ t ∈ hung.timers.live, ¬ t.due ≤ 700 := by
  have hopening : Begun story 0 opening :=
    (Begun.fresh {} 0).after (c := .start none none) (by decide +kernel)
  have hswapping : Begun story 0 swapping := hopening.after (c := .poll) rfl
  obtain ⟨fired, entered, hdrains, hlength, -, -, hfired, -, hnone⟩ :=
    Begun.poll_drains hswapping (by decide : (700 : Int64) < Int64.maxValue)
  have hcount : (swapping.poll 700).fired = 2 := by decide +kernel
  exact ⟨fired, entered, hdrains, hlength.symm.trans hcount, hfired, hnone⟩

end BranchingStory
