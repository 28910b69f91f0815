import BranchingStory.Proofs.Batches
import BranchingStory.Proofs.Firings
/-!
# The order of pending timers

A save sorts the live timers to see what is pending; a poll lets the first one fire of those that
are due, again and again. Timers are numbered as they are scheduled, so no two live ones have the
same number, and only one order of them goes by due time and then by number. Sorting gives this
order, and each timer that fires is the first one in it; so what fires at some time is what pending
timers begin with, up to the first one that is not due yet.
-/

namespace BranchingStory

instance (a b : Timer) : Decidable (a.Before b) :=
  inferInstanceAs (Decidable (a.due < b.due ∨ (a.due = b.due ∧ a.number < b.number)))

/-- No two timers fire before each other. -/
theorem Timer.Before.asymm {a b : Timer} (h : a.Before b) : ¬ b.Before a := by
  unfold Timer.Before at *
  simp only [Int64.lt_iff_toInt_lt, ← Int64.toInt_inj] at *
  omega

namespace Timers

variable {t t' : Timers} {now : Int64} {timer : Timer} {action : Deferred}

/-! ## Timers by their operations -/

/-- The timers that come of none at all by what can be done with timers. Where nothing is due,
nothing fires and nothing changes. -/
inductive Formed : Timers → Prop
  | fresh : Formed {}
  | schedule {t : Timers} (h : Formed t) (due : Int64) (action : Deferred) :
    Formed (t.schedule due action)
  | popDue {t t' : Timers} {now : Int64} {action : Deferred} (h : Formed t)
      (hpop : t.popDue now = some (action, t')) : Formed t'
  | cancel {t : Timers} (h : Formed t) (p : Deferred → Bool) : Formed (t.cancel p)
  | nextEpoch {t : Timers} (h : Formed t) : Formed t.nextEpoch

/-- However timers come about, all of them are live and numbered as they were scheduled. -/
theorem Formed.sound (h : t.Formed) : t.Sound := by
  induction h with
  | fresh => exact .of_nil rfl
  | schedule _ due action ih => exact ih.schedule due action
  | popDue _ hpop ih =>
    obtain ⟨timer, -, -, -, rfl, -⟩ := of_popDue hpop
    exact ih.of_sublist List.erase_sublist
  | cancel _ p ih => exact ih.of_sublist List.filter_sublist
  | nextEpoch => exact .of_nil rfl

/-! ## The one order -/

/-- In their order each timer fires before the later ones. -/
theorem Sound.before_inOrder (h : t.Sound) : t.inOrder.Pairwise Timer.Before := by
  have hnodup : t.inOrder.Nodup := t.inOrder_perm.nodup_iff.2 (h.live_eq ▸ h.nodup)
  refine (t.notAfter_inOrder.and hnodup).imp_of_mem ?_
  rintro a b ha hb ⟨hab, hne⟩
  rcases Timer.notAfter_iff.1 hab with hlt | ⟨hdue, hnumber⟩
  · exact .inl hlt
  · refine .inr ⟨hdue, Nat.lt_of_le_of_ne hnumber fun heq => hne ?_⟩
    have hmem {c : Timer} (hc : c ∈ t.inOrder) : c ∈ t.timers :=
      (mem_live.1 (t.inOrder_perm.subset hc)).1
    exact h.eq_of_number (hmem ha) (hmem hb) heq

/-- There is no other such order. -/
theorem Sound.eq_inOrder (h : t.Sound) {l : List Timer} (hperm : l.Perm t.live)
    (hbefore : l.Pairwise Timer.Before) : l = t.inOrder := by
  refine List.Perm.eq_of_pairwise ?_ hbefore h.before_inOrder (hperm.trans t.inOrder_perm.symm)
  intro a b _ _ hab hba
  exact absurd hba hab.asymm

/-- The timer that fires is the first in order, and the others stay in order. -/
theorem Sound.inOrder_of_first? (h : t.Sound) (hfirst : first? (t.due now) = some timer) :
    t.inOrder = timer :: inOrder { t with timers := t.timers.erase timer } := by
  have hrest : Timers.Sound { t with timers := t.timers.erase timer } :=
    h.of_sublist List.erase_sublist
  have hlive := (mem_due.1 (mem_of_first? hfirst)).1
  refine (h.eq_inOrder ?perm ?before).symm
  case perm =>
    refine (List.Perm.cons timer (inOrder_perm _)).trans ?_
    rw [live_erase]
    exact (List.perm_cons_erase hlive).symm
  case before =>
    refine List.pairwise_cons.2 ⟨fun other hother => ?_, hrest.before_inOrder⟩
    have hmem := (mem_live.1 ((inOrder_perm _).subset hother)).1
    exact before_of_first? h hfirst other hmem

/-- The earliest due time is that of the first timer in order. -/
theorem nextDue?_eq (t : Timers) : t.nextDue? = t.inOrder.head?.map (·.due) := by
  have hperm := t.inOrder_perm
  have hsorted := t.notAfter_inOrder
  cases horder : t.inOrder with
  | nil =>
    rw [horder] at hperm
    simp [nextDue?, hperm.symm.eq_nil]
  | cons first rest =>
    rw [horder] at hperm hsorted
    refine List.min?_eq_some_iff.2 ⟨List.mem_map_of_mem (hperm.subset (.head _)), ?_⟩
    intro due hdue
    obtain ⟨timer, htimer, rfl⟩ := List.mem_map.1 hdue
    rcases List.mem_cons.1 (hperm.symm.subset htimer) with rfl | hlater
    · exact Int64.le_refl _
    · have hfirst := (List.pairwise_cons.1 hsorted).1 timer hlater
      rcases Timer.notAfter_iff.1 hfirst with hlt | ⟨heq, -⟩
      · exact Int64.le_of_lt hlt
      · exact Int64.le_of_eq heq

/-! ## Firing one after the other -/

/-- Lets the first timer fire of those that are due, again and again until there are none: what the
timers do that fire, and the ones that are left. -/
def drain (t : Timers) (now : Int64) : List Deferred × Timers :=
  match _ : t.popDue now with
  | none => ([], t)
  | some (action, rest) =>
    let later := rest.drain now
    (action :: later.1, later.2)
termination_by t.timers.length
decreasing_by
  have hlength := length_of_popDue ‹t.popDue now = some (action, rest)›
  omega

/-- Letting timers fire comes to an end only when none is due. -/
theorem popDue_drain (t : Timers) (now : Int64) : (t.drain now).2.popDue now = none := by
  fun_induction drain t now with
  | case1 t hpop => exact hpop
  | case2 t action rest hpop later ih => exact ih

/-- What fires are the timers that are due, in their order, and the others are left in theirs. -/
theorem Sound.drain_eq_filter (h : t.Sound) (now : Int64) :
    (t.drain now).1 = (t.inOrder.filter (·.due ≤ now)).map (·.action) ∧
      t.inOrder = t.inOrder.filter (·.due ≤ now) ++ (t.drain now).2.inOrder := by
  fun_induction drain t now with
  | case1 t hpop =>
    have hnone : t.inOrder.filter (·.due ≤ now) = [] := by
      refine List.filter_eq_nil_iff.2 fun timer htimer => ?_
      simpa using popDue_eq_none.1 hpop timer (t.inOrder_perm.subset htimer)
    simp [hnone]
  | case2 t action rest hpop later ih =>
    obtain ⟨timer, hfirst, hpopped⟩ := Option.map_eq_some_iff.1 hpop
    cases hpopped
    have hdue := (mem_due.1 (mem_of_first? hfirst)).2
    obtain ⟨hactions, horder⟩ := ih (h.of_sublist List.erase_sublist)
    rw [h.inOrder_of_first? hfirst, List.filter_cons_of_pos (by simpa using hdue)]
    exact ⟨by rw [hactions, List.map_cons], by rw [List.cons_append, ← horder]⟩

/-! ## Main result -/

/-- However timers have come about, the live ones have one order, by due time and then as they were
scheduled. Letting timers fire one after the other at some time does what those do that are due, in
this order, and leaves the rest pending. -/
theorem Formed.drain_in_order (h : t.Formed) :
    (t.inOrder.Perm t.live ∧ t.inOrder.Pairwise Timer.Before ∧
      t.pending = t.inOrder.map (·.action)) ∧
    t.pending.length = t.live.length ∧
    t.nextDue? = t.inOrder.head?.map (·.due) ∧
    (∀ now, (∀ timer ∈ t.live, timer.due ≤ now) → (t.drain now).1 = t.pending) ∧
    ∀ now, (t.drain now).1 = (t.inOrder.filter (·.due ≤ now)).map (·.action) ∧
      t.pending = (t.drain now).1 ++ (t.drain now).2.pending ∧
      (t.drain now).2.popDue now = none := by
  have hpending (t : Timers) : t.pending = t.inOrder.map (·.action) := rfl
  have hperm := t.inOrder_perm
  refine ⟨⟨hperm, h.sound.before_inOrder, rfl⟩, ?length, t.nextDue?_eq, fun now hdue => ?all,
    fun now => ⟨?fired, ?left, t.popDue_drain now⟩⟩
  case length =>
    rw [hpending, List.length_map, hperm.length_eq]
  case all =>
    have hall : t.inOrder.filter (·.due ≤ now) = t.inOrder :=
      List.filter_eq_self.2 fun timer htimer => by simpa using hdue timer (hperm.subset htimer)
    rw [(h.sound.drain_eq_filter now).1, hall, hpending]
  case fired => exact (h.sound.drain_eq_filter now).1
  case left =>
    obtain ⟨hactions, horder⟩ := h.sound.drain_eq_filter now
    rw [hactions, hpending, hpending, ← List.map_append, ← horder]

/-- Four timers, of which the last but one is the first to fire, and one from the epoch before. -/
def busy : Timers :=
  (((({} : Timers).schedule 50 (.removeImage 1)).nextEpoch.schedule 500 (.removeImage 2)).schedule
    200 (.moveOn "dusk")).schedule 100 (.removeImage 3) |>.schedule 500 (.removeImage 4)

/-- The first timer has fired, another one was scheduled, and the story no longer waits. -/
def crowded : Timers :=
  (((busy.popDue 150).elim busy (·.2)).schedule 300 (.removeImage 5)).cancel (·.isTransition)

/-- The timer that was scheduled last fires first, and two that are due together fire as they were
scheduled. -/
theorem drain_crowded :
    crowded.Formed ∧ crowded.pending = [.removeImage 5, .removeImage 2, .removeImage 4] ∧
      crowded.nextDue? = some 300 ∧ (crowded.drain 500).1 = crowded.pending ∧
      (crowded.drain 499).1 = [.removeImage 5] := by
  have hbusy : busy.Formed :=
    ((((Formed.fresh.schedule 50 _).nextEpoch.schedule 500 _).schedule 200 _).schedule
      100 _).schedule 500 _
  have hpop : busy.popDue 150 = some (.removeImage 3, (busy.popDue 150).elim busy (·.2)) := by
    decide +kernel
  have hcrowded : crowded.Formed := ((hbusy.popDue hpop).schedule 300 _).cancel _
  obtain ⟨⟨-, -, hpending⟩, -, hnext, hall, hfired⟩ := Formed.drain_in_order hcrowded
  have horder : [⟨300, 6, 1, .removeImage 5⟩, ⟨500, 2, 1, .removeImage 2⟩,
      ⟨500, 5, 1, .removeImage 4⟩] = crowded.inOrder :=
    hcrowded.sound.eq_inOrder (by decide +kernel) (by decide)
  refine ⟨hcrowded, ?_, ?_, hall 500 (by decide +kernel), ?_⟩
  · rw [hpending, ← horder]
    rfl
  · rw [hnext, ← horder]
    rfl
  · rw [(hfired 499).1, ← horder]
    rfl

end Timers

end BranchingStory
