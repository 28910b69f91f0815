import BranchingStory.Proofs.Finishing
import BranchingStory.Proofs.Guises
import BranchingStory.Terminal.Session
/-!
# Getting back to the prompt

Before a player is asked for something, all timers are waited for. Each wait ends with a timer that
fires, and a timer for an image brings no others. Only one that leads the story on does, as many as
a walk can bring, so the waiting goes on for as long as the story is led on. Where no node that
holds the story back can be come back to without the player, that happens once at each such node at
most. Cycles of other nodes do no harm: a walk through them is cut off. But a limit on the steps of
a walk is none on how often the story is led on, and around a ring of nodes that hold it back the
story is led for ever.
-/

namespace BranchingStory

open Relation

/-! ## Nodes that hold the story back -/

namespace Node

/-- Whether the story waits at a node until its image has come in. -/
def holdsBack (n : Node) : Bool :=
  n.next?.isSome && n.directive?.any fun d =>
    d.picture.hasEntrance && 0 < d.picture.duration.getD 0

theorem holdsBack_iff {n : Node} : n.holdsBack ↔ ∃ d next, n.directive? = some d ∧
    n.next? = some next ∧ d.picture.hasEntrance ∧ 0 < d.picture.duration.getD 0 := by
  unfold holdsBack
  cases n.directive? <;> cases n.next? <;> simp

/-- The nodes that a node may lead to without the player, at once or after a while. -/
def unasked (n : Node) : List String :=
  match n.kind with
  | .start | .operations _ | .image _ | .script _ => n.next?.toList
  | .condition branches otherwise =>
    branches.filterMap Branch.target? ++ (given otherwise).toList
  | _ => []

/-- What a node leads to at once it leads to without the player. -/
theorem Acts.mem_unasked {n : Node} {now : Int64} {e e' : Engine} {id : String}
    (h : n.Acts now e e' (some id)) : id ∈ n.unasked := by
  generalize honward : some id = onward at h
  unfold unasked
  cases h with
  | branch hkind =>
    rw [hkind]
    refine List.mem_append_left _ (List.mem_filterMap.2 ⟨_, ?_, honward.symm⟩)
    exact List.mem_append_right _ (.head _)
  | otherwise hkind =>
    rw [hkind]
    exact List.mem_append_right _ (Option.mem_toList.2 honward.symm)
  | start hkind hnext =>
    rw [hkind]
    exact Option.mem_toList.2 (hnext.trans honward.symm)
  | operations hkind | script hkind | noImage hkind | image hkind =>
    rw [hkind]
    exact Option.mem_toList.2 honward.symm
  | startOnly | entrance | stop => cases honward

/-- A node that holds the story back leads to the next one without the player. -/
theorem mem_unasked_of_holdsBack {n : Node} {next : String} (hholds : n.holdsBack)
    (hnext : n.next? = some next) : next ∈ n.unasked := by
  obtain ⟨d, -, hd, -⟩ := holdsBack_iff.1 hholds
  unfold unasked
  rw [directive?_eq_some.1 hd]
  exact Option.mem_toList.2 hnext

end Node

namespace Chapter

variable {c : Chapter} {a b id : String}

/-- A node of a chapter may lead to another one without the player. -/
def LeadsOn (c : Chapter) (a b : String) : Prop := ∃ n, c.node? a = some n ∧ b ∈ n.unasked

/-- From a node on, no node that holds the story back is come back to without the player. -/
def Rests (c : Chapter) (id : String) : Prop :=
  ∀ a n, ReflTransGen c.LeadsOn id a → c.node? a = some n → n.holdsBack → ¬ TransGen c.LeadsOn a a

theorem Rests.of_reach (h : c.Rests a) (hab : ReflTransGen c.LeadsOn a b) : c.Rests b :=
  fun x n hbx => h x n (hab.trans hbx)

/-- How many nodes of a chapter hold the story back. -/
def holds (c : Chapter) : Nat := c.nodes.countP (·.holdsBack)

section Ahead
open scoped Classical

/-- The nodes ahead of a node that hold the story back, itself included. -/
noncomputable def holdsAhead (c : Chapter) (id : String) : Finset String :=
  {a ∈ ((c.nodes.filter (·.holdsBack)).map (·.id)).toFinset | ReflTransGen c.LeadsOn id a}

theorem card_holdsAhead_le (c : Chapter) (id : String) : (c.holdsAhead id).card ≤ c.holds := by
  have hlength : ((c.nodes.filter (·.holdsBack)).map (·.id)).length = c.holds := by
    rw [List.length_map, holds, List.countP_eq_length_filter]
  exact hlength ▸ (Finset.card_filter_le _ _).trans (List.toFinset_card_le _)

theorem holdsAhead_subset (hab : ReflTransGen c.LeadsOn a b) : c.holdsAhead b ⊆ c.holdsAhead a :=
  Finset.monotone_filter_right _ fun _ _ hb => hab.trans hb

/-- Once the story has been led on from a node, this node is no longer ahead. -/
theorem card_holdsAhead_lt {n : Node} (h : c.Rests a) (hn : c.node? a = some n)
    (hholds : n.holdsBack) (hab : c.LeadsOn a b) :
    (c.holdsAhead b).card < (c.holdsAhead a).card := by
  obtain ⟨hmem, hid⟩ := mem_of_node? hn
  have hahead : a ∈ c.holdsAhead a := by
    refine Finset.mem_filter.2 ⟨List.mem_toFinset.2 (List.mem_map.2 ⟨n, ?_, hid⟩), .refl⟩
    exact List.mem_filter.2 ⟨hmem, hholds⟩
  have hbehind : a ∉ c.holdsAhead b := fun hba =>
    h a n .refl hn hholds (.head' hab (Finset.mem_filter.1 hba).2)
  exact Finset.card_lt_card ⟨holdsAhead_subset (.single hab), fun hsub => hbehind (hsub hahead)⟩

end Ahead

/-- A chapter rests where its nodes can be numbered so that no node leads to one with a larger
number without the player, and one that holds the story back only to smaller ones. -/
theorem rests_of_rank (rank : String → Nat)
    (hrank : ∀ n ∈ c.nodes, ∀ b ∈ n.unasked,
      rank b + (if n.holdsBack then 1 else 0) ≤ rank n.id) (id : String) : c.Rests id := by
  have hstep {a b : String} (hab : c.LeadsOn a b) : rank b ≤ rank a := by
    obtain ⟨n, hn, hb⟩ := hab
    obtain ⟨hmem, rfl⟩ := mem_of_node? hn
    exact Nat.le_of_add_right_le (hrank n hmem b hb)
  have hreach {a b : String} (hab : ReflTransGen c.LeadsOn a b) : rank b ≤ rank a := by
    induction hab with
    | refl => exact Nat.le_refl _
    | tail _ hbc ih => exact Nat.le_trans (hstep hbc) ih
  intro a n _ hn hholds hcycle
  obtain ⟨b, ⟨n', hn', hb⟩, hback⟩ := TransGen.head'_iff.1 hcycle
  obtain rfl := Option.some.inj (hn.symm.trans hn')
  obtain ⟨hmem, rfl⟩ := mem_of_node? hn
  have hless := hrank n hmem b hb
  rw [if_pos hholds] at hless
  exact absurd (hreach hback) (by omega)

end Chapter

theorem Deferred.exists_of_isTransition {action : Deferred} (h : action.isTransition) :
    ∃ next, action = .moveOn next := by
  cases action with
  | moveOn next => exact ⟨next, rfl⟩
  | _ => cases h

/-! ## How often the story is led on -/

/-- Whether a timer has just fired that leads the story on. -/
def Moment.leadsOn (m : Moment) : Bool := m.entered.isNone && m.onward.isSome

namespace Engine

variable {e after : Engine} {now : Int64} {c : Chapter} {left : Nat}

/-- How often the story is led on while at most so many timers fire. -/
def leadingsWithin (now : Int64) (most : Nat) (e : Engine) : Nat :=
  (polled now most e).countP (·.leadsOn)

/-- How often the story is led on while timers fire. -/
def leadings (e : Engine) (now : Int64) : Nat := leadingsWithin now e.pollLimit e

theorem countP_fired (e : Engine) (now : Int64) (action : Deferred) :
    (e.fired now action).countP (·.leadsOn) = if action.isTransition then 1 else 0 := by
  cases action with
  | removeImage serial => rfl
  | showImage node d => rfl
  | moveOn next =>
    have hwalked : (e.wentTo now next).countP (·.leadsOn) = 0 := by
      refine List.countP_eq_zero.2 fun m hm => ?_
      unfold wentTo at hm
      split at hm
      · simp [Moment.leadsOn, Option.isNone_eq_false_iff.2 (entered_walked now m hm)]
      · exact absurd hm List.not_mem_nil
    change List.countP _ (_ :: e.wentTo now next) = 1
    rw [List.countP_cons_of_pos rfl, hwalked]

section
variable {action : Deferred} {timers : Timers}

theorem leadingsWithin_of_none (hdue : e.timers.popDue now = none) (most : Nat) :
    leadingsWithin now most e = 0 := by
  unfold leadingsWithin
  rw [polled_of_none hdue, List.countP_nil]

theorem leadingsWithin_of_some (hdue : e.timers.popDue now = some (action, timers)) (most : Nat) :
    leadingsWithin now (most + 1) e = (if action.isTransition then 1 else 0) +
      leadingsWithin now most ({ e with timers }.fire now action) := by
  unfold leadingsWithin
  rw [polled_of_some hdue, List.countP_append, countP_fired, through_fired]

theorem pollWithin_of_none (hdue : e.timers.popDue now = none) (most : Nat) :
    pollWithin now most e = ⟨0, e, []⟩ := by
  cases most with
  | zero => rfl
  | succ most => rw [pollWithin, hdue]

theorem pollWithin_of_some (hdue : e.timers.popDue now = some (action, timers)) (most : Nat) :
    (pollWithin now (most + 1) e).fired =
        (pollWithin now most ({ e with timers }.fire now action)).fired + 1 ∧
      (pollWithin now (most + 1) e).engine =
        (pollWithin now most ({ e with timers }.fire now action)).engine := by
  rw [pollWithin, hdue]
  exact ⟨rfl, rfl⟩

/-! ## What a timer that fires brings -/

/-- How many timers a walk can bring at most: three at every node that it enters. -/
def brought (e : Engine) : Nat := 3 * (e.settings.maxAutoSteps + 1)

theorem length_live_walk_le (chapter : Chapter) (most : Nat) (e : Engine) (id : String) :
    (walk now chapter most e id).timers.live.length ≤ e.timers.live.length + 3 * (most + 1) := by
  rw [show most + 1 = 0 + (most + 1) by omega]
  refine walk_induction (I := fun k after => after.timers.live.length ≤
    e.timers.live.length + 3 * k) ?_ ?_ chapter most (Nat.le_refl _) id
  · intro j k after hjk h
    omega
  · intro k after id n h
    have hentered := length_live_enter_le (after.atNode id) now n
    change _ ≤ after.timers.live.length + _ at hentered
    split at hentered <;> omega

theorem length_live_goTo_le (e : Engine) (now : Int64) (id : String) :
    (e.goTo now id).timers.live.length ≤ e.timers.live.length + e.brought := by
  unfold goTo
  cases e.currentChapter? with
  | none => exact Nat.le_add_right ..
  | some c => exact length_live_walk_le c _ e id

/-- A timer that fires is gone. Others come only where it leads the story on. -/
theorem length_live_fire_le (hdue : e.timers.popDue now = some (action, timers)) :
    ({ e with timers }.fire now action).timers.live.length + 1 ≤
      e.timers.live.length + e.brought * if action.isTransition then 1 else 0 := by
  have hfewer : timers.live.length + 1 = e.timers.live.length := by
    obtain ⟨timer, hlive, -, -, rfl, -⟩ := Timers.of_popDue hdue
    rw [Timers.live_erase, List.length_erase_of_mem hlive]
    exact Nat.sub_add_cancel (List.length_pos_of_mem hlive)
  cases action with
  | removeImage serial => exact hfewer.le
  | showImage node d => exact hfewer.le
  | moveOn next =>
    have hgone : ({ e with timers }.goTo now next).timers.live.length ≤
        timers.live.length + e.brought := length_live_goTo_le ..
    change ({ e with timers }.goTo now next).timers.live.length + 1 ≤ _ + e.brought * 1
    omega

end

/-- While timers fire there come as many as a walk can bring, each time the story is led on. -/
theorem length_live_pollWithin_le (now : Int64) (most : Nat) (e : Engine) :
    (pollWithin now most e).engine.settings = e.settings ∧
      (pollWithin now most e).fired + (pollWithin now most e).engine.timers.live.length ≤
        e.timers.live.length + e.brought * leadingsWithin now most e := by
  induction most generalizing e with
  | zero => exact ⟨rfl, (Nat.zero_add _).le.trans (Nat.le_add_right ..)⟩
  | succ most ih =>
    cases hdue : e.timers.popDue now with
    | none =>
      rw [pollWithin_of_none hdue, leadingsWithin_of_none hdue]
      exact ⟨rfl, (Nat.zero_add _).le⟩
    | some popped =>
      obtain ⟨action, timers⟩ := popped
      obtain ⟨hfired, hengine⟩ := pollWithin_of_some hdue most
      have hlive := length_live_fire_le hdue
      have hsame : ({ e with timers }.fire now action).settings = e.settings := settings_fire ..
      have hbrought : ({ e with timers }.fire now action).brought = e.brought := by
        rw [brought, hsame, brought]
      obtain ⟨hsettings, hrest⟩ := ih ({ e with timers }.fire now action)
      rw [hbrought] at hrest
      rw [hfired, hengine, leadingsWithin_of_some hdue, Nat.mul_add]
      exact ⟨hsettings.trans hsame, by omega⟩

/-! ## What a timer that fires leaves -/

section
variable {action : Deferred} {timers : Timers}

/-- A timer for an image leaves the story where it is, waiting if it waited before. -/
theorem fire_of_still (hpaced : e.Paced) (hdue : e.timers.popDue now = some (action, timers))
    (hstill : action.isTransition = false) :
    ({ e with timers }.fire now action).Paced ∧
      ({ e with timers }.fire now action).currentChapter? = e.currentChapter? ∧
      ({ e with timers }.fire now action).run.node = e.run.node ∧
      ({ e with timers }.fire now action).timers.transitionPending = e.timers.transitionPending := by
  have hwaits : timers.transitionPending = e.timers.transitionPending := by
    obtain ⟨timer, hlive, -, rfl, rfl, -⟩ := Timers.of_popDue hdue
    rw [Timers.transitionPending, Timers.live_erase, Timers.transitionPending,
      (List.perm_cons_erase hlive).any_eq, List.any_cons, hstill, Bool.false_or]
  cases action with
  | removeImage serial =>
    have hfires : Fires now ⟨e, none, none⟩ _ := .remove hdue
    exact ⟨(hfires.paced ⟨hpaced, by simp⟩).1, rfl, rfl, hwaits⟩
  | showImage node d =>
    have hfires : Fires now ⟨e, none, none⟩ _ := .bring hdue
    exact ⟨(hfires.paced ⟨hpaced, by simp⟩).1, rfl, rfl, hwaits⟩
  | moveOn next => cases hstill

/-- A timer that leads the story on finds it waiting at a node that holds it back, and leads to the
next one. -/
theorem fire_of_moveOn {next : String} (hpaced : e.Paced)
    (hdue : e.timers.popDue now = some (.moveOn next, timers)) :
    Free { e with timers } ∧ e.timers.transitionPending ∧
      ∃ n, e.currentNode? = some n ∧ n.holdsBack ∧ n.next? = some next := by
  have hfires : Fires now ⟨e, none, none⟩ _ := .moveOn hdue
  obtain ⟨timer, hlive, -, haction, -⟩ := Timers.of_popDue hdue
  obtain ⟨n, d, hn, hd, hentrance, hduration, hnext⟩ :=
    (hpaced.heldBack timer hlive next haction).image
  exact ⟨(hfires.paced ⟨hpaced, by simp⟩).2 rfl,
    List.any_eq_true.2 ⟨timer, hlive, by rw [haction]; rfl⟩,
    n, hn, Node.holdsBack_iff.2 ⟨d, next, hd, hnext, hentrance, hduration⟩, hnext⟩

end

/-! ## Where the story rests -/

/-- Where a node leads on at once, the story can still go on. -/
theorem free_of_enter {id next : String} {n : Node} (hfree : e.Free)
    (hchapter : e.currentChapter? = some c) (hn : c.node? id = some n)
    (hafter : (e.atNode id).enter now n = (after, some next)) :
    after.Free ∧ after.currentChapter? = some c ∧ c.LeadsOn id next := by
  obtain ⟨-, hgoes⟩ := enter_atNode_paced hfree hchapter now hn
  have hsame := (e.atNode id).currentChapter?_enter now n
  rw [hafter] at hgoes hsame
  exact ⟨hgoes rfl, hsame.trans hchapter, n, hn, (acts_iff.2 hafter).mem_unasked⟩

/-- A walk that leaves the story waiting has been led to the node where it waits. -/
theorem reaches_walk (steps : Nat) {e : Engine} {id : String} (hfree : e.Free)
    (hchapter : e.currentChapter? = some c)
    (hwaits : (walk now c steps e id).timers.transitionPending) :
    ReflTransGen c.LeadsOn id (walk now c steps e id).run.node := by
  cases hn : c.node? id with
  | none =>
    rw [walk_of_missing hn, hfree.2] at hwaits
    cases hwaits
  | some n =>
    have hnode : ((e.atNode id).enter now n).1.run.node = id := node_enter ..
    rcases hafter : (e.atNode id).enter now n with ⟨after, _ | next⟩
    · rw [hafter] at hnode
      rw [walk_of_stop hn hafter, hnode]
    · cases steps with
      | zero =>
        rw [hafter] at hnode
        rw [walk_zero hn hafter, hnode]
      | succ steps =>
        rw [walk_succ hn hafter] at hwaits ⊢
        obtain ⟨hfree', hchapter', hleads⟩ := free_of_enter hfree hchapter hn hafter
        exact .head hleads (reaches_walk steps hfree' hchapter' hwaits)

theorem goTo_eq_walk (hchapter : e.currentChapter? = some c) (now : Int64) (id : String) :
    e.goTo now id = walk now c e.settings.maxAutoSteps e id := by
  unfold goTo
  rw [hchapter]
  rfl

theorem reaches_goTo {id : String} (hfree : e.Free) (hchapter : e.currentChapter? = some c)
    (hwaits : (e.goTo now id).timers.transitionPending) :
    ReflTransGen c.LeadsOn id (e.goTo now id).run.node := by
  rw [goTo_eq_walk hchapter] at hwaits ⊢
  exact reaches_walk _ hfree hchapter hwaits

theorem currentChapter?_goTo (e : Engine) (now : Int64) (id : String) :
    (e.goTo now id).currentChapter? = e.currentChapter? := by
  have hstays := stays_goTo e now id
  unfold currentChapter?
  rw [hstays.story, hstays.stage, hstays.chapter]

/-- While the story waits, it is in a chapter that rests from where it waits, and so many nodes that
hold it back are ahead at most. -/
structure NearsRest (e : Engine) (left : Nat) : Prop where
  paced : e.Paced
  rests : e.timers.transitionPending → ∃ c, e.currentChapter? = some c ∧ c.Rests e.run.node ∧
    (c.holdsAhead e.run.node).card ≤ left

/-- Each time the story is led on, fewer nodes that hold it back are ahead. -/
theorem nearsRest_fire {action : Deferred} {timers : Timers} (h : e.NearsRest left)
    (hdue : e.timers.popDue now = some (action, timers)) :
    ∃ less, less + (if action.isTransition then 1 else 0) ≤ left ∧
      ({ e with timers }.fire now action).NearsRest less := by
  cases hleads : action.isTransition with
  | false =>
    obtain ⟨hpaced, hchapter, hnode, hwaits⟩ := fire_of_still h.paced hdue hleads
    refine ⟨left, Nat.le_refl _, hpaced, ?_⟩
    rw [hchapter, hnode, hwaits]
    exact h.rests
  | true =>
    obtain ⟨next, rfl⟩ := Deferred.exists_of_isTransition hleads
    obtain ⟨hfree, hwaits, n, hn, hholds, hnext⟩ := fire_of_moveOn h.paced hdue
    obtain ⟨c, hchapter, hrests, hleft⟩ := h.rests hwaits
    rw [currentNode?, hchapter] at hn
    have hleads : c.LeadsOn e.run.node next := ⟨n, hn, Node.mem_unasked_of_holdsBack hholds hnext⟩
    have hless := Chapter.card_holdsAhead_lt hrests hn hholds hleads
    refine ⟨(c.holdsAhead next).card, Nat.lt_of_lt_of_le hless hleft, paced_goTo hfree next, ?_⟩
    change (goTo _ now next).timers.transitionPending → _
    intro hagain
    -- where the story waits again is ahead of the next node
    have hreach : ReflTransGen c.LeadsOn next ({ e with timers }.goTo now next).run.node :=
      reaches_goTo hfree hchapter hagain
    exact ⟨c, (currentChapter?_goTo ..).trans hchapter, hrests.of_reach (.head hleads hreach),
      Finset.card_le_card (Chapter.holdsAhead_subset hreach)⟩

theorem nearsRest_pollWithin (now : Int64) (most : Nat) (h : e.NearsRest left) :
    ∃ less, less + leadingsWithin now most e ≤ left ∧
      (pollWithin now most e).engine.NearsRest less := by
  induction most generalizing e left with
  | zero => exact ⟨left, Nat.le_refl _, h⟩
  | succ most ih =>
    cases hdue : e.timers.popDue now with
    | none =>
      rw [pollWithin_of_none hdue, leadingsWithin_of_none hdue]
      exact ⟨left, Nat.le_refl _, h⟩
    | some popped =>
      obtain ⟨action, timers⟩ := popped
      obtain ⟨less, hless, hfired⟩ := nearsRest_fire h hdue
      obtain ⟨rest, hrest, hend⟩ := ih hfired
      rw [leadingsWithin_of_some hdue, (pollWithin_of_some hdue most).2]
      exact ⟨rest, by omega, hend⟩

/-! ## Waiting -/

/-- So many times the next timer is waited for and the timers fire that are due then. Meanwhile the
story is led on so many times. How much later it is when the wait is over does not matter. -/
inductive Awaits : (waits led : Nat) → Engine → Engine → Prop
  | refl (e : Engine) : Awaits 0 0 e e
  | wait {waits led : Nat} {e after : Engine} {due now : Int64}
      (hnext : e.timers.nextDue? = some due) (hdue : due ≤ now)
      (hrest : Awaits waits led (e.poll now).engine after) :
    Awaits (waits + 1) (e.leadings now + led) e after

/-- The nodes of the current chapter that hold the story back. -/
def holdsBackCount (e : Engine) : Nat := e.currentChapter?.elim 0 (·.holds)

/-- Every wait ends with a timer that fires, so there are no more waits than timers. -/
theorem Awaits.waits_le {waits led : Nat} (h : Awaits waits led e after) :
    waits + after.timers.live.length ≤ e.timers.live.length + e.brought * led := by
  induction h with
  | refl e => exact (Nat.zero_add _).le
  | wait hnext hdue _ ih =>
    rename_i waits led e after due now _
    obtain ⟨t, ht, rfl⟩ := List.mem_map.1 (List.min?_mem hnext)
    have hfired := fired_poll_pos ht hdue
    obtain ⟨hsettings, hlive⟩ := length_live_pollWithin_le now e.pollLimit e
    have hbrought : (e.poll now).engine.brought = e.brought := by
      rw [brought, show (e.poll now).engine.settings = e.settings from hsettings, brought]
    rw [hbrought] at ih
    change (e.poll now).fired + (e.poll now).engine.timers.live.length ≤
      _ + e.brought * e.leadings now at hlive
    rw [Nat.mul_add]
    omega

theorem Awaits.led_le {waits led : Nat} (h : Awaits waits led e after) (hrest : e.NearsRest left) :
    led ≤ left := by
  induction h generalizing left with
  | refl e => exact Nat.zero_le _
  | wait hnext hdue _ ih =>
    rename_i e after due now _
    obtain ⟨less, hless, hafter⟩ := nearsRest_pollWithin now e.pollLimit hrest
    have hled := ih hafter
    change less + e.leadings now ≤ left at hless
    omega

end Engine

/-! ## At the terminal -/

namespace Terminal.Turn

open Engine (Awaits)

variable {t : Turn} {due : Int64}

theorem engine_go (t : Turn) (engine : Engine) (heard : List Notice) :
    (t.go engine heard).session.engine = engine := by
  have hhear (s : Session) (event : Event) : (s.hear event).engine = s.engine := by
    cases event with
    | nodeChanged n => cases n <;> rfl
    | _ => rfl
  unfold go
  dsimp only
  suffices h : ∀ s : Session, (heard.foldl (fun s n => s.hear n.event) s).engine = s.engine from h _
  induction heard with
  | nil => exact fun _ => rfl
  | cons n rest ih => exact fun s => (ih _).trans (hhear s n.event)

theorem engine_waitFor (t : Turn) (due : Int64) :
    (t.waitFor due).session = t.session := by
  unfold waitFor
  split <;> rfl

theorem le_now_waitFor (t : Turn) (due : Int64) : due ≤ (t.waitFor due).now := by
  unfold waitFor
  split
  · exact Int64.le_refl due
  · rename_i hlater
    exact Int64.not_lt.1 hlater

theorem session_ask (t : Turn) (c : Call) : (t.ask c).session = t.session := by
  unfold ask
  split <;> rfl

theorem now_ask (t : Turn) (c : Call) : (t.ask c).now = t.now := by
  unfold ask
  split <;> rfl

/-- The turn after a time was waited for and the timers that are due then have fired. -/
def await (t : Turn) (due : Int64) : Turn :=
  let t := (t.waitFor due).ask .poll
  t.go (t.session.engine.poll t.now).engine (t.session.engine.poll t.now).notices

theorem engine_await (t : Turn) (due : Int64) :
    (t.await due).session.engine = (t.session.engine.poll (t.waitFor due).now).engine := by
  unfold await
  rw [engine_go, session_ask, now_ask, engine_waitFor]

theorem settleWithin_of_none (h : t.session.engine.timers.nextDue? = none) (most : Nat) :
    t.settleWithin most = t := by
  cases most with
  | zero => rfl
  | succ most =>
    unfold settleWithin
    rw [h]

theorem settleWithin_of_some (h : t.session.engine.timers.nextDue? = some due) (most : Nat) :
    t.settleWithin (most + 1) = (t.await due).settleWithin most := by
  rw [settleWithin, h]
  rfl

/-- Settling waits as often as it may, or until no timer is left. -/
theorem awaits_settleWithin (most : Nat) (t : Turn) :
    ∃ waits led, Awaits waits led t.session.engine (t.settleWithin most).session.engine ∧
      (waits = most ∨ (t.settleWithin most).session.engine.timers.live = []) := by
  induction most generalizing t with
  | zero => exact ⟨0, 0, .refl _, .inl rfl⟩
  | succ most ih =>
    cases hnext : t.session.engine.timers.nextDue? with
    | none =>
      rw [settleWithin_of_none hnext]
      exact ⟨0, 0, .refl _, .inr (List.map_eq_nil_iff.1 (List.min?_eq_none_iff.1 hnext))⟩
    | some due =>
      rw [settleWithin_of_some hnext]
      obtain ⟨waits, led, hawaits, hend⟩ := ih (t.await due)
      rw [engine_await] at hawaits
      exact ⟨_, _, .wait hnext (le_now_waitFor t due) hawaits, hend.imp (congrArg Nat.succ) id⟩

/-- Once no timer is left, it does not matter how many more might have been waited for. -/
theorem settleWithin_of_le {n most : Nat} (hle : n ≤ most)
    (hnone : (t.settleWithin n).session.engine.timers.live = []) :
    t.settleWithin most = t.settleWithin n := by
  have hstops {t : Turn} (hnone : t.session.engine.timers.live = []) (most : Nat) :
      t.settleWithin most = t :=
    settleWithin_of_none (by rw [Timers.nextDue?, hnone]; rfl) most
  induction n generalizing t most with
  | zero => exact hstops hnone most
  | succ n ih =>
    obtain ⟨more, rfl⟩ : ∃ more, most = more + 1 := ⟨most - 1, by omega⟩
    cases hnext : t.session.engine.timers.nextDue? with
    | none => rw [settleWithin_of_none hnext, settleWithin_of_none hnext]
    | some due =>
      rw [settleWithin_of_some hnext] at hnone
      rw [settleWithin_of_some hnext, settleWithin_of_some hnext,
        ih (Nat.le_of_succ_le_succ hle) hnone]

end Terminal.Turn

/-! ## Around a ring -/

/-- Some nodes hold the story back, and each of them leads to another one of them. -/
def Chapter.Circles (c : Chapter) (ids : List String) : Prop :=
  ∀ id ∈ ids, ∃ n next, c.node? id = some n ∧ n.holdsBack ∧ n.next? = some next ∧ next ∈ ids

namespace Engine

variable {e : Engine} {now : Int64} {c : Chapter} {ids : List String}

/-- The story waits at one of these nodes. -/
structure GoesRound (e : Engine) (c : Chapter) (ids : List String) : Prop where
  paced : e.Paced
  chapter : e.currentChapter? = some c
  node : e.run.node ∈ ids
  waits : e.timers.transitionPending

/-- A story that is led on to one of the nodes waits there. -/
theorem goesRound_goTo {next : String} (hcircles : c.Circles ids) (hfree : e.Free)
    (hchapter : e.currentChapter? = some c) (hnext : next ∈ ids) :
    (e.goTo now next).GoesRound c ids := by
  obtain ⟨n, onward, hn, hholds, -⟩ := hcircles next hnext
  obtain ⟨d, onward, hd, honward, hentrance, hduration⟩ := Node.holdsBack_iff.1 hholds
  have hacts : (e.atNode next).enter now n = _ :=
    acts_iff.1 (.entrance (Node.directive?_eq_some.1 hd) honward hentrance hduration)
  have hgone : e.goTo now next = ((e.atNode next).enter now n).1 := by
    rw [goTo_eq_walk hchapter, hacts]
    exact walk_of_stop hn hacts _
  refine ⟨paced_goTo hfree next, ?chapter, ?node, ?waits⟩
  case chapter => exact (currentChapter?_goTo ..).trans hchapter
  case node =>
    rw [hgone, node_enter]
    exact hnext
  case waits =>
    rw [hgone, hacts]
    unfold Timers.transitionPending
    dsimp only [schedule]
    rw [Timers.live_schedule]
    rfl

theorem goesRound_fire {action : Deferred} {timers : Timers} (hcircles : c.Circles ids)
    (h : e.GoesRound c ids) (hdue : e.timers.popDue now = some (action, timers)) :
    ({ e with timers }.fire now action).GoesRound c ids := by
  cases hleads : action.isTransition with
  | false =>
    obtain ⟨hpaced, hchapter, hnode, hwaits⟩ := fire_of_still h.paced hdue hleads
    exact ⟨hpaced, hchapter.trans h.chapter, hnode ▸ h.node, hwaits.trans h.waits⟩
  | true =>
    obtain ⟨next, rfl⟩ := Deferred.exists_of_isTransition hleads
    obtain ⟨hfree, -, n, hn, -, hnext⟩ := fire_of_moveOn h.paced hdue
    obtain ⟨n', next', hn', -, hnext', hin⟩ := hcircles _ h.node
    rw [currentNode?, h.chapter] at hn
    obtain rfl := Option.some.inj (hn.symm.trans hn')
    obtain rfl := Option.some.inj (hnext.symm.trans hnext')
    exact goesRound_goTo hcircles hfree h.chapter hin

theorem goesRound_pollWithin (now : Int64) (most : Nat) (hcircles : c.Circles ids)
    (h : e.GoesRound c ids) : (pollWithin now most e).engine.GoesRound c ids := by
  induction most generalizing e with
  | zero => exact h
  | succ most ih =>
    cases hdue : e.timers.popDue now with
    | none =>
      rw [pollWithin_of_none hdue]
      exact h
    | some popped =>
      obtain ⟨action, timers⟩ := popped
      rw [(pollWithin_of_some hdue most).2]
      exact ih (goesRound_fire hcircles h hdue)

/-- Around a ring the story goes for ever, however long it is waited for. -/
theorem goesRound_settleWithin (most : Nat) {t : Terminal.Turn} (hcircles : c.Circles ids)
    (h : t.session.engine.GoesRound c ids) :
    (t.settleWithin most).session.engine.GoesRound c ids := by
  induction most generalizing t with
  | zero => exact h
  | succ most ih =>
    cases hnext : t.session.engine.timers.nextDue? with
    | none =>
      rw [Terminal.Turn.settleWithin_of_none hnext]
      exact h
    | some due =>
      rw [Terminal.Turn.settleWithin_of_some hnext]
      refine ih ?_
      rw [Terminal.Turn.engine_await]
      exact goesRound_pollWithin _ _ hcircles h

end Engine

/-! ## Main result -/

/-- The waits before a prompt are bounded by the timers and by how often the story is led on
meanwhile. They come to an end where the story can not come back to a node that holds it back
without the player: it is led on from every such node of the chapter once at most. -/
theorem Reachable.waits_end {s : Story} {e : Engine} (h : Reachable s e) :
    (∀ waits led after, e.Awaits waits led after →
      waits + after.timers.live.length ≤ e.timers.live.length + e.brought * led) ∧
    ((∀ c, e.currentChapter? = some c → e.timers.transitionPending → c.Rests e.run.node) →
      (∀ waits led after, e.Awaits waits led after → led ≤ e.holdsBackCount) ∧
      ∀ t : Terminal.Turn, t.session.engine = e → ∃ settled : Terminal.Turn,
        settled.session.engine.timers.live = [] ∧
        ∀ most ≥ e.timers.live.length + e.brought * e.holdsBackCount,
          t.settleWithin most = settled) := by
  refine ⟨fun waits led after => Engine.Awaits.waits_le, fun hrests => ?_⟩
  have hnears : e.NearsRest e.holdsBackCount := by
    refine ⟨h.paced, fun hwaits => ?_⟩
    obtain ⟨t, ht, hleads⟩ := List.any_eq_true.1 hwaits
    obtain ⟨next, haction⟩ := Deferred.exists_of_isTransition hleads
    obtain ⟨n, -, hn, -⟩ := (h.paced.heldBack t ht next haction).image
    obtain ⟨c, hchapter, -⟩ := Option.bind_eq_some_iff.1 hn
    refine ⟨c, hchapter, hrests c hchapter hwaits, ?_⟩
    rw [Engine.holdsBackCount, hchapter]
    exact c.card_holdsAhead_le _
  have hled {waits led : Nat} {after : Engine} (hawaits : e.Awaits waits led after) :
      led ≤ e.holdsBackCount := hawaits.led_le hnears
  refine ⟨fun waits led after => hled, fun t ht => ?_⟩
  generalize hmost : e.timers.live.length + e.brought * e.holdsBackCount = bound
  obtain ⟨waits, led, hawaits, hend⟩ := t.awaits_settleWithin bound
  rw [ht] at hawaits
  have hle := hawaits.waits_le
  have hbrought : e.brought * led ≤ e.brought * e.holdsBackCount :=
    Nat.mul_le_mul_left _ (hled hawaits)
  have hnone : (t.settleWithin bound).session.engine.timers.live = [] := by
    rcases hend with hall | hnone
    · exact List.length_eq_zero_iff.1 (by omega)
    · exact hnone
  exact ⟨_, hnone, fun most hle => Terminal.Turn.settleWithin_of_le hle hnone⟩

namespace Gallery

/-- A hall in which the first picture is followed by two nodes that lead to each other at once. -/
def corridor : Chapter where
  id := "hall"
  nodes := [door, dawn, { id := "dusk", next := some "lamp", kind := .script none },
    { id := "lamp", next := some "dusk", kind := .script none }]

/-- The first picture of the corridor is coming in. -/
def enteringCorridor : Engine :=
  ({ story := { stages := [{ id := "house", chapters := [corridor] }] } } : Engine).after 0
    (.start none none)

/-- The walk through the cycle is cut off, and no timer is left at the prompt. -/
theorem waits_end_corridor :
    ∃ settled : Terminal.Turn, settled.session.engine.timers.live = [] ∧
      ∀ most ≥ 30004, ({ session := { engine := enteringCorridor }, now := 0 } :
        Terminal.Turn).settleWithin most = settled := by
  have hreachable : Reachable _ enteringCorridor := (Reachable.fresh {} 0).after 0 _
  have hchapter : enteringCorridor.currentChapter? = some corridor := by decide +kernel
  have hrank : ∀ n ∈ corridor.nodes, ∀ b ∈ n.unasked,
      (if b = "door" ∨ b = "dawn" then 1 else 0) + (if n.holdsBack then 1 else 0) ≤
        if n.id = "door" ∨ n.id = "dawn" then 1 else 0 := by
    decide +kernel
  obtain ⟨-, hrests⟩ := Reachable.waits_end hreachable
  obtain ⟨-, hsettled⟩ := hrests fun c hc _ => by
    obtain rfl := Option.some.inj (hchapter.symm.trans hc)
    exact Chapter.rests_of_rank _ hrank _
  have hbound : enteringCorridor.timers.live.length +
      enteringCorridor.brought * enteringCorridor.holdsBackCount = 30004 := by
    decide +kernel
  rw [hbound] at hsettled
  exact hsettled _ rfl

/-- The second picture comes in as the first one did, and leads back to it. -/
def returning : Node :=
  { dusk with next := some "dawn", kind := .image (some { picture :=
      { duskPicture with effect := some .fadeIn, duration := some 300 } }) }

/-- A room in which the two pictures come in after each other without end. -/
def rotunda : Chapter := { id := "hall", nodes := [door, dawn, returning] }

/-- The first picture of the rotunda is coming in. -/
def enteringRotunda : Engine :=
  ({ story := { stages := [{ id := "house", chapters := [rotunda] }] } } : Engine).after 0
    (.start none none)

/-- Around the two pictures the story is led for ever. However often the next timer is waited for,
there is another one. -/
theorem not_waits_end_rotunda :
    Reachable { stages := [{ id := "house", chapters := [rotunda] }] } enteringRotunda ∧
      ∀ most, (({ session := { engine := enteringRotunda }, now := 0 } :
        Terminal.Turn).settleWithin most).session.engine.timers.live ≠ [] := by
  have hreachable : Reachable { stages := [{ id := "house", chapters := [rotunda] }] }
      enteringRotunda := (Reachable.fresh {} 0).after 0 _
  refine ⟨hreachable, fun most hnone => ?_⟩
  have hcircles : rotunda.Circles ["dawn", "dusk"] := by
    intro id hid
    rcases List.mem_pair.1 hid with rfl | rfl
    · exact ⟨dawn, "dusk", by decide +kernel, by decide, rfl, by decide⟩
    · exact ⟨returning, "dawn", by decide +kernel, by decide, rfl, by decide⟩
  have hround : enteringRotunda.GoesRound rotunda ["dawn", "dusk"] :=
    ⟨hreachable.paced, by decide +kernel, by decide +kernel, by decide +kernel⟩
  have hstill := (Engine.goesRound_settleWithin most
    (t := { session := { engine := enteringRotunda }, now := 0 }) hcircles hround).waits
  rw [Timers.transitionPending, hnone] at hstill
  cases hstill

end Gallery
end BranchingStory
