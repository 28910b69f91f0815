import BranchingStory.Proofs.Endings
import BranchingStory.Proofs.Settling
/-!
# Polling often or once

While the story waits for nothing, a timer that fires only brings an image or takes one away, and
schedules no other. The first timer to fire of those that are due stays the first when more of them
are due, and what it does has nothing to do with the time. So it makes no difference whether the
timers fire at several polls or at the last one of them.
-/

namespace BranchingStory

namespace Timers

variable {t t' : Timers} {earlier later now : Int64} {action : Deferred}

/-- The first timer of those that are due at some time is the first of all. -/
theorem first?_of_filter {l : List Timer} {time : Int64} {timer : Timer}
    (h : first? (l.filter (·.due ≤ time)) = some timer) : first? l = some timer := by
  induction l generalizing timer with
  | nil => exact h
  | cons a rest ih =>
    by_cases ha : a.due ≤ time
    · rw [List.filter_cons_of_pos (by simpa using ha)] at h
      simp only [first?] at h ⊢
      cases hdue : first? (rest.filter (·.due ≤ time)) with
      | some b => rwa [ih hdue, ← hdue]
      | none =>
        -- the others are due only after that time, so none of them comes before this one
        rw [hdue] at h
        cases hrest : first? rest with
        | none => exact h
        | some b =>
          have hb : ¬ b.due ≤ time := fun hb => by
            have hmem : b ∈ rest.filter (·.due ≤ time) :=
              List.mem_filter.2 ⟨mem_of_first? hrest, by simpa using hb⟩
            rw [first?_eq_none.1 hdue] at hmem
            exact List.not_mem_nil hmem
          have hab : a.notAfter b :=
            Timer.notAfter_iff.2 (.inl (Int64.lt_of_le_of_lt ha (Int64.not_le.1 hb)))
          simpa [hab] using h
    · rw [List.filter_cons_of_neg (by simpa using ha)] at h
      have htimer : timer.due ≤ time := by
        simpa using (List.mem_filter.1 (mem_of_first? h)).2
      have hlt : timer.due < a.due := Int64.lt_of_le_of_lt htimer (Int64.not_le.1 ha)
      have hab : ¬ a.notAfter timer := by
        rw [Timer.notAfter_iff]
        rintro (hbefore | ⟨heq, -⟩)
        · exact Int64.lt_irrefl (Int64.lt_trans hlt hbefore)
        · exact Int64.lt_irrefl (heq ▸ hlt)
      simp [first?, ih h, hab]

/-- What is due at some time is what was due later and was due by then. -/
theorem due_eq_filter (t : Timers) (hle : earlier ≤ later) :
    t.due earlier = (t.due later).filter (·.due ≤ earlier) := by
  unfold due
  rw [List.filter_filter]
  refine List.filter_congr fun timer _ => ?_
  have hlater : timer.due ≤ earlier → timer.due ≤ later := fun h => Int64.le_trans h hle
  by_cases hdue : timer.due ≤ earlier <;> simp [hdue, hlater]

/-- The timer that fires first would still do so later. -/
theorem popDue_of_le (hle : earlier ≤ later) (h : t.popDue earlier = some (action, t')) :
    t.popDue later = some (action, t') := by
  obtain ⟨timer, hfirst, hpopped⟩ := Option.map_eq_some_iff.1 h
  rw [due_eq_filter t hle] at hfirst
  exact Option.map_eq_some_iff.2 ⟨timer, first?_of_filter hfirst, hpopped⟩

theorem length_of_popDue (h : t.popDue now = some (action, t')) :
    t'.timers.length + 1 = t.timers.length := by
  obtain ⟨timer, hlive, -, -, rfl, -⟩ := of_popDue h
  have hmem := (mem_live.1 hlive).1
  have hpos := List.length_pos_of_mem hmem
  have hlength := List.length_erase_of_mem hmem
  dsimp only
  omega

end Timers

namespace Engine

variable {e : Engine} {now earlier later : Int64} {most : Nat}

/-! ## A single poll -/

theorem length_le_pollLimit (e : Engine) : e.timers.timers.length ≤ e.pollLimit :=
  Nat.le_add_left_of_le (Nat.le_mul_of_pos_right _ (Nat.succ_pos _))

/-- What a timer for an image does has nothing to do with the time, nor with the other timers. -/
theorem still_fire {action : Deferred} {timers : Timers}
    (hnone : e.timers.transitionPending = false)
    (hdue : e.timers.popDue now = some (action, timers)) :
    (∀ time, { e with timers }.fire time action = { e with timers }.fire now action) ∧
      ({ e with timers }.fire now action).timers = timers ∧ timers.transitionPending = false := by
  obtain ⟨hstill, htimers⟩ := transitionPending_of_popDue hnone hdue
  refine ⟨fun time => ?_, ?_, htimers⟩
  · cases action with
    | moveOn next => cases hstill
    | _ => rfl
  · cases action with
    | moveOn next => cases hstill
    | _ => rfl

/-- It does not matter how many timers may fire at most, as long as all of them may. -/
theorem pollWithin_eq_of_length_le {enough : Nat} (hnone : e.timers.transitionPending = false)
    (hmost : e.timers.timers.length ≤ most) (henough : e.timers.timers.length ≤ enough) :
    pollWithin now most e = pollWithin now enough e := by
  induction most generalizing e enough with
  | zero =>
    have hempty : e.timers.timers = [] := List.length_eq_zero_iff.1 (Nat.le_zero.1 hmost)
    have hdue : e.timers.popDue now = none :=
      Timers.popDue_eq_none.2 fun timer hlive => by simp [Timers.mem_live, hempty] at hlive
    cases enough with
    | zero => rfl
    | succ enough => simp [pollWithin, hdue]
  | succ most ih =>
    cases hdue : e.timers.popDue now with
    | none => cases enough <;> simp [pollWithin, hdue]
    | some popped =>
      obtain ⟨action, timers⟩ := popped
      have hlength := Timers.length_of_popDue hdue
      obtain ⟨-, htimers, hlater⟩ := still_fire hnone hdue
      cases enough with
      | zero => omega
      | succ enough =>
        simp only [pollWithin, hdue, settledFrom]
        generalize { e with timers }.fire now action = next at htimers ⊢
        have hnext : next.timers.timers.length + 1 = e.timers.timers.length := by
          rw [htimers]
          exact hlength
        rw [ih (by rw [htimers]; exact hlater) (by omega) (show _ ≤ enough by omega)]

/-- Polling lets the first timer fire and polls again. -/
theorem poll_of_popDue {action : Deferred} {timers : Timers}
    (hnone : e.timers.transitionPending = false)
    (hdue : e.timers.popDue now = some (action, timers)) :
    let next := { e with timers }.fire now action
    e.poll now = { next.poll now with
      fired := (next.poll now).fired + 1
      notices := (next.settledFrom e.run.node).2 ++ (next.poll now).notices } := by
  intro next
  have hlength := Timers.length_of_popDue hdue
  obtain ⟨-, htimers, hlater⟩ := still_fire hnone hdue
  have hpositive : 0 < e.pollLimit := Nat.lt_of_lt_of_le (by omega) e.length_le_pollLimit
  obtain ⟨most, hmost⟩ := Nat.exists_eq_succ_of_ne_zero (Nat.pos_iff_ne_zero.1 hpositive)
  have hrest : pollWithin now most next = next.poll now := by
    have hroom := e.length_le_pollLimit
    refine pollWithin_eq_of_length_le (by rw [htimers]; exact hlater) ?_ next.length_le_pollLimit
    rw [htimers]
    omega
  rw [← hrest]
  unfold poll
  simp only [hmost, pollWithin, hdue]
  rfl

theorem transitionPending_pollWithin (hnone : e.timers.transitionPending = false) :
    (pollWithin now most e).engine.timers.transitionPending = false := by
  induction most generalizing e with
  | zero => exact hnone
  | succ most ih =>
    unfold pollWithin
    cases hdue : e.timers.popDue now with
    | none => exact hnone
    | some popped =>
      obtain ⟨action, timers⟩ := popped
      obtain ⟨-, htimers, hlater⟩ := still_fire hnone hdue
      exact ih (by rw [← htimers] at hlater; exact hlater)

/-! ## Polls in a row -/

/-- One poll and another one after it, taken together. -/
def Polled.andThen (first : Polled) (second : Engine → Polled) : Polled :=
  let rest := second first.engine
  { rest with fired := first.fired + rest.fired, notices := first.notices ++ rest.notices }

/-- One poll after the other, at each of these times: how many timers fired in all, the engine at
the end, and all that observers heard. -/
def pollEach : List Int64 → Engine → Polled
  | [], e => ⟨0, e, []⟩
  | now :: rest, e => (e.poll now).andThen (pollEach rest)

/-- Some timers that fire early need not fire later. -/
theorem pollWithin_andThen_poll (hnone : e.timers.transitionPending = false)
    (hle : earlier ≤ later) :
    (pollWithin earlier most e).andThen (·.poll later) = e.poll later := by
  induction most generalizing e with
  | zero => simp [pollWithin, Polled.andThen]
  | succ most ih =>
    unfold pollWithin
    cases hdue : e.timers.popDue earlier with
    | none => simp [Polled.andThen]
    | some popped =>
      obtain ⟨action, timers⟩ := popped
      have hlater := Timers.popDue_of_le hle hdue
      obtain ⟨hsame, htimers, htransition⟩ := still_fire hnone hdue
      have hpoll := poll_of_popDue hnone hlater
      rw [hsame later] at hpoll
      rw [hpoll]
      dsimp only [settledFrom]
      generalize { e with timers }.fire earlier action = next at htimers ⊢
      have hrest := ih (e := next) (by rw [htimers]; exact htransition)
      rw [← hrest]
      simp [Polled.andThen, Nat.add_right_comm]

end Engine

/-! ## Main result -/

/-- While the story waits for nothing, polls at times that never go back come to the same as a
single poll at the last of these times: as many timers fire in all, the engine at the end is the
same in every respect, and so is what observers hear. -/
theorem Engine.pollEach_eq_poll {e : Engine} (hnone : e.timers.transitionPending = false)
    {times : List Int64} {last : Int64} (hsorted : (times ++ [last]).Pairwise (· ≤ ·)) :
    e.pollEach (times ++ [last]) = e.poll last := by
  induction times generalizing e with
  | nil => simp [pollEach, Polled.andThen]
  | cons now rest ih =>
    obtain ⟨hnow, hrest⟩ := List.pairwise_cons.1 hsorted
    have hlater : (e.poll now).engine.timers.transitionPending = false :=
      transitionPending_pollWithin hnone
    have hle : now ≤ last := hnow last (List.mem_append_right _ (.head _))
    calc e.pollEach (now :: rest ++ [last])
        = (e.poll now).andThen (pollEach (rest ++ [last])) := rfl
      _ = (e.poll now).andThen (·.poll last) := by
        unfold Polled.andThen
        rw [ih hlater hrest]
      _ = e.poll last := pollWithin_andThen_poll hnone hle

namespace Gallery

/-- A node at which a picture comes to a slot, after the one before it has gone for so long. -/
def exchangeNode (id next : String) (slot : Slot) (exitDuration : Option UInt64) : Node where
  id := id
  next := some next
  kind := .image (some
    { picture := { path := id ++ ".png", slot }
      exitEffect := exitDuration.map fun _ => .fadeOut
      exitDuration })

/-- Two slots get their pictures exchanged, one of them in half the time of the other. -/
def rearranging : Engine :=
  let floor : Slot := ⟨"floor", 0⟩
  let nodes := [{ door with next := some "a" }, exchangeNode "a" "b" wall none,
    exchangeNode "b" "c" floor none, exchangeNode "c" "d" wall (some 200),
    exchangeNode "d" "label" floor (some 400), label]
  ({ story := { stages := [{ id := "house", chapters := [{ id := "hall", nodes }] }] } } :
    Engine).after 0 (.start none none)

/-- One of the slots is done at the first of two polls, and the other one at the second. -/
theorem pollEach_rearranging :
    rearranging.timers.transitionPending = false ∧
      rearranging.pollEach [200, 400] = rearranging.poll 400 ∧
      (rearranging.poll 200).fired = 2 ∧ (rearranging.poll 400).fired = 4 := by
  have hnone : rearranging.timers.transitionPending = false := by decide +kernel
  have hsorted : ([200] ++ [400] : List Int64).Pairwise (· ≤ ·) := by decide +kernel
  exact ⟨hnone, Engine.pollEach_eq_poll hnone hsorted, by decide +kernel, by decide +kernel⟩

end Gallery
end BranchingStory
