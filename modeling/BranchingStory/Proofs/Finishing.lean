import BranchingStory.Proofs.Endings
import BranchingStory.Proofs.Walks
/-!
# Playing a chapter to its end

A chapter whose nodes lead from its entry to an end is played to that end by going on whenever there
is nothing to wait for, and by waiting for the next timer otherwise. Each of these rounds brings the
story nearer to the end: a node further along the way, or with a timer less. How many rounds it
takes is known from the nodes alone.
-/

namespace BranchingStory

/-! ## The way to the end -/

/-- The next nodes lead from a node to an end of the chapter, over so many hops and past so many
image nodes. None of the nodes on the way is a choice, a condition or an end itself. -/
inductive Chapter.LeadsToEnd (c : Chapter) : (hops images : Nat) → (id : String) → Prop
  | atEnd {id : String} {n : Node} (hnode : c.node? id = some n) (hend : n.type = .chapterEnd) :
    LeadsToEnd c 0 0 id
  | hop {id next : String} {n : Node} {hops images : Nat} (hnode : c.node? id = some n)
      (htype : n.type ∉ [.choice, .condition, .chapterEnd]) (hnext : n.next? = some next)
      (hrest : LeadsToEnd c hops images next) :
    LeadsToEnd c (hops + 1) (images + if n.type = .image then 1 else 0) id

/-- What is ahead of a node, once it has been entered. -/
inductive Chapter.Ahead (c : Chapter) : (hops images : Nat) → Node → Prop
  | atEnd {n : Node} (hend : n.type = .chapterEnd) : Ahead c 0 0 n
  | hop {n : Node} {next : String} {hops images : Nat}
      (htype : n.type ∉ [.choice, .condition, .chapterEnd]) (hnext : n.next? = some next)
      (hrest : c.LeadsToEnd hops images next) : Ahead c (hops + 1) images n

theorem Chapter.LeadsToEnd.ahead {c : Chapter} {hops images : Nat} {id : String}
    (h : c.LeadsToEnd hops images id) :
    ∃ n rest, c.node? id = some n ∧ c.Ahead hops rest n ∧
      images = rest + if n.type = .image then 1 else 0 := by
  cases h with
  | atEnd hnode hend => exact ⟨_, 0, hnode, .atEnd hend, by simp [hend]⟩
  | hop hnode htype hnext hrest => exact ⟨_, _, hnode, .hop htype hnext hrest, rfl⟩

/-- On the way a node leads to the next one or nowhere at all. -/
theorem Node.Acts.onward_eq {n : Node} {now : Int64} {e e' : Engine} {onward : Option String}
    (h : n.Acts now e e' onward) (hcondition : n.type ≠ .condition) :
    onward = none ∨ (n.type ≠ .chapterEnd ∧ onward = n.next?) := by
  cases h with
  | branch hkind => simp [Node.type, hkind, NodeKind.type] at hcondition
  | otherwise hkind => simp [Node.type, hkind, NodeKind.type] at hcondition
  | start hkind hnext => exact .inr ⟨by simp [Node.type, hkind, NodeKind.type], hnext.symm⟩
  | operations hkind | script hkind | noImage hkind | image hkind =>
    exact .inr ⟨by simp [Node.type, hkind, NodeKind.type], rfl⟩
  | startOnly | entrance | stop => exact .inl rfl

theorem Chapter.Ahead.of_onward {c : Chapter} {hops images : Nat} {n : Node} {now : Int64}
    {e e' : Engine} {next : String} (h : c.Ahead hops images n)
    (hacts : n.Acts now e e' (some next)) :
    ∃ rest, hops = rest + 1 ∧ c.LeadsToEnd rest images next := by
  cases h with
  | atEnd hend =>
    rcases hacts.onward_eq (by simp [hend]) with hnone | ⟨hnot, -⟩
    · cases hnone
    · exact absurd hend hnot
  | hop htype hnext hrest =>
    rcases hacts.onward_eq (fun hcondition => htype (by simp [hcondition])) with hnone | ⟨-, hsome⟩
    · cases hnone
    · rw [hnext] at hsome
      cases hsome
      exact ⟨_, rfl, hrest⟩

namespace Engine

variable {e after : Engine} {now : Int64} {c : Chapter} {left : Nat}

/-! ## Timers that come -/

/-- A directive lets an image go and another one come, at most. -/
theorem length_live_direct_le (e : Engine) (now : Int64) (node : String) (d : ImageDirective) :
    (e.direct now node d).timers.live.length ≤ e.timers.live.length + 2 := by
  have hcleared : (e.cleared d).timers.live.length ≤ e.timers.live.length := by
    rw [cleared, Timers.live_cancel]
    exact List.length_filter_le ..
  have hd := directs e now node d
  generalize e.direct now node d = after at hd
  refine Nat.le_trans ?_ (Nat.add_le_add_right hcleared 2)
  cases hd with
  | empty => exact Nat.le_add_right ..
  | bring => exact Nat.le_add_right ..
  | replace => exact Nat.le_add_right ..
  | exchange =>
    unfold exchange
    cases d.timing <;> simp [schedule, showImage]

/-- An image node brings three timers at most, and no other node brings any. -/
theorem length_live_enter_le (e : Engine) (now : Int64) (n : Node) :
    (e.enter now n).1.timers.live.length ≤
      e.timers.live.length + 3 * if n.type = .image then 1 else 0 := by
  have himage {d : ImageDirective} (hd : n.directive? = some d) : n.type = .image := by
    rw [Node.type, Node.directive?_eq_some.1 hd]
    rfl
  have hentered := enters e now n
  generalize e.enter now n = after at hentered
  cases hentered with
  | plain => exact Nat.le_add_right ..
  | image d hd =>
    rw [if_pos (himage hd)]
    exact Nat.le_succ_of_le (length_live_direct_le e now n.id d)
  | wait d hd next hnext hentrance hduration due =>
    rw [if_pos (himage hd)]
    change (Timers.schedule _ due (.moveOn next)).live.length ≤ _
    rw [Timers.live_schedule, List.length_cons]
    exact Nat.succ_le_succ (length_live_direct_le e now n.id d)

/-! ## On the way -/

/-- The story is on its way to the end of a chapter, and no more than so much is left to be done:
hops, timers, and the timers that images on the way will bring. -/
structure OnWay (e : Engine) (c : Chapter) (left : Nat) : Prop where
  playing : e.run.status = .playing
  chapter : e.currentChapter? = some c
  node : ∃ n hops images, c.node? e.run.node = some n ∧ c.Ahead hops images n ∧
    hops + 3 * images + e.timers.live.length ≤ left

theorem OnWay.mono {less : Nat} (h : e.OnWay c less) (hless : less ≤ left) : e.OnWay c left := by
  obtain ⟨n, hops, images, hn, hahead, hle⟩ := h.node
  exact ⟨h.playing, h.chapter, n, hops, images, hn, hahead, Nat.le_trans hle hless⟩

/-- A node on the way has been entered. -/
theorem onWay_enter (now : Int64) {n : Node} {id : String} {hops images : Nat}
    (hplaying : e.run.status = .playing) (hchapter : e.currentChapter? = some c)
    (hn : c.node? id = some n) (hahead : c.Ahead hops images n) :
    ((e.atNode id).enter now n).1.OnWay c
      (hops + 3 * (images + if n.type = .image then 1 else 0) + e.timers.live.length) := by
  have hlive := length_live_enter_le (e.atNode id) now n
  obtain ⟨store, backlog, scene, timers, imageCounter, hframe⟩ := (e.atNode id).enter_frame now n
  rw [hframe] at hlive ⊢
  refine ⟨hplaying, hchapter, n, hops, images, hn, hahead, ?_⟩
  change timers.live.length ≤ e.timers.live.length + _ at hlive
  dsimp only
  omega

/-- A walk stays on the way, wherever it stops. -/
theorem onWay_walk {hops images : Nat} {id : String} (steps : Nat)
    (hplaying : e.run.status = .playing) (hchapter : e.currentChapter? = some c)
    (hleads : c.LeadsToEnd hops images id) :
    (walk now c steps e id).OnWay c (hops + 3 * images + e.timers.live.length) := by
  induction steps generalizing e id hops images with
  | zero =>
    obtain ⟨n, rest, hn, hahead, rfl⟩ := hleads.ahead
    have hentered := onWay_enter now hplaying hchapter hn hahead
    rcases hafter : (e.atNode id).enter now n with ⟨after, _ | next⟩
    · rw [walk_of_stop hn hafter]
      rwa [hafter] at hentered
    · rw [walk_zero hn hafter]
      rwa [hafter] at hentered
  | succ steps ih =>
    obtain ⟨n, rest, hn, hahead, rfl⟩ := hleads.ahead
    have hentered := onWay_enter now hplaying hchapter hn hahead
    have hlive := length_live_enter_le (e.atNode id) now n
    rcases hafter : (e.atNode id).enter now n with ⟨after, _ | next⟩
    · rw [walk_of_stop hn hafter]
      rwa [hafter] at hentered
    · rw [walk_succ hn hafter]
      rw [hafter] at hentered hlive
      obtain ⟨hops, rfl, hrest⟩ := hahead.of_onward (acts_iff.2 hafter)
      have hbrought : after.timers.live.length ≤ e.timers.live.length + _ := hlive
      refine (ih hentered.playing hentered.chapter hrest).mono ?_
      dsimp only
      omega

/-- Going on from a node on the way leaves less to be done. -/
theorem onWay_goTo (now : Int64) {hops images : Nat} {next : String}
    (hplaying : e.run.status = .playing) (hchapter : e.currentChapter? = some c)
    (hleads : c.LeadsToEnd hops images next) :
    (e.goTo now next).OnWay c (hops + 3 * images + e.timers.live.length) := by
  unfold goTo
  rw [hchapter]
  exact onWay_walk _ hplaying hchapter hleads

/-- From where the story can go on, it goes on until it waits for one timer at most. -/
theorem paced_walk (steps : Nat) {id : String} (hfree : e.Free)
    (hchapter : e.currentChapter? = some c) : (walk now c steps e id).Paced := by
  induction steps generalizing e id with
  | zero =>
    cases hn : c.node? id with
    | none => exact walk_of_missing hn 0 ▸ hfree.paced
    | some n =>
      obtain ⟨hpaced, -⟩ := enter_atNode_paced hfree hchapter now hn
      rcases hafter : (e.atNode id).enter now n with ⟨after, _ | next⟩
      · rw [walk_of_stop hn hafter]
        rwa [hafter] at hpaced
      · rw [walk_zero hn hafter]
        rwa [hafter] at hpaced
  | succ steps ih =>
    cases hn : c.node? id with
    | none => exact walk_of_missing hn (steps + 1) ▸ hfree.paced
    | some n =>
      obtain ⟨hpaced, hgoes⟩ := enter_atNode_paced hfree hchapter now hn
      obtain ⟨store, backlog, scene, timers, imageCounter, hframe⟩ :=
        (e.atNode id).enter_frame now n
      rcases hafter : (e.atNode id).enter now n with ⟨after, _ | next⟩
      · rw [walk_of_stop hn hafter]
        rwa [hafter] at hpaced
      · rw [walk_succ hn hafter]
        rw [hafter] at hgoes hframe
        refine ih (hgoes rfl) ?_
        rw [show after = _ from hframe]
        exact hchapter

theorem paced_goTo (hfree : e.Free) (next : String) : (e.goTo now next).Paced := by
  unfold goTo
  cases hchapter : e.currentChapter? with
  | none => exact hfree.paced
  | some c => exact paced_walk _ hfree hchapter

/-! ## Timers that fire -/

/-- A timer that fires leaves the story on its way, with less to be done. -/
theorem onWay_fire {action : Deferred} {timers : Timers} (hpaced : e.Paced) (hway : e.OnWay c left)
    (hdue : e.timers.popDue now = some (action, timers)) :
    ({ e with timers }.fire now action).Paced ∧
      ∃ less, less < left ∧ ({ e with timers }.fire now action).OnWay c less := by
  obtain ⟨n, hops, images, hn, hahead, hleft⟩ := hway.node
  have hfewer : timers.live.length + 1 = e.timers.live.length := by
    obtain ⟨timer, hlive, -, -, rfl, -⟩ := Timers.of_popDue hdue
    rw [Timers.live_erase, List.length_erase_of_mem hlive]
    exact Nat.sub_add_cancel (List.length_pos_of_mem hlive)
  cases action with
  | removeImage serial =>
    have hfires : Fires now ⟨e, none, none⟩ _ := .remove hdue
    refine ⟨(hfires.paced ⟨hpaced, nofun⟩).1, hops + 3 * images + timers.live.length, by omega,
      hway.playing, hway.chapter, n, hops, images, hn, hahead, Nat.le_refl _⟩
  | showImage node d =>
    have hfires : Fires now ⟨e, none, none⟩ _ := .bring hdue
    refine ⟨(hfires.paced ⟨hpaced, nofun⟩).1, hops + 3 * images + timers.live.length, by omega,
      hway.playing, hway.chapter, n, hops, images, hn, hahead, Nat.le_refl _⟩
  | moveOn next =>
    have hfires : Fires now ⟨e, none, none⟩ _ := .moveOn hdue
    have hfree : Free { e with timers } := (hfires.paced ⟨hpaced, nofun⟩).2 rfl
    obtain ⟨timer, hlive, -, haction, -⟩ := Timers.of_popDue hdue
    obtain ⟨n', d, hn', hd, -, -, hnext⟩ := (hpaced.heldBack timer hlive next haction).image
    have hsame : n' = n := by
      rw [currentNode?, hway.chapter] at hn'
      exact Option.some.inj (hn'.symm.trans hn)
    subst hsame
    refine ⟨paced_goTo hfree next, ?_⟩
    cases hahead with
    | atEnd hend => simp [Node.type, Node.directive?_eq_some.1 hd, NodeKind.type] at hend
    | hop htype hnext' hrest =>
      obtain rfl := Option.some.inj (hnext.symm.trans hnext')
      refine ⟨_, ?_, onWay_goTo (e := { e with timers }) now hway.playing hway.chapter hrest⟩
      dsimp only
      omega

/-- Each timer that fires leaves less to be done. -/
theorem onWay_pollWithin (now : Int64) (most : Nat) (hpaced : e.Paced) (hway : e.OnWay c left) :
    (pollWithin now most e).engine.Paced ∧
      ∃ less, less + (pollWithin now most e).fired ≤ left ∧
        (pollWithin now most e).engine.OnWay c less := by
  induction most generalizing e left with
  | zero => exact ⟨hpaced, left, Nat.le_refl left, hway⟩
  | succ most ih =>
    unfold pollWithin
    cases hdue : e.timers.popDue now with
    | none => exact ⟨hpaced, left, Nat.le_refl left, hway⟩
    | some popped =>
      obtain ⟨action, timers⟩ := popped
      obtain ⟨hpaced', less, hless, hway'⟩ := onWay_fire hpaced hway hdue
      obtain ⟨hend, rest, hrest, hwayEnd⟩ := ih hpaced' hway'
      refine ⟨hend, rest, ?_, hwayEnd⟩
      change rest + ((pollWithin now most ({ e with timers }.fire now action)).fired + 1) ≤ left
      omega

/-- Where a timer is due, one fires. -/
theorem fired_poll_pos {t : Timer} (ht : t ∈ e.timers.live) (hdue : t.due ≤ now) :
    0 < (e.poll now).fired := by
  obtain ⟨most, hmost⟩ : ∃ most, e.pollLimit = most + 1 :=
    Nat.exists_eq_add_one.2 (Nat.add_pos_left (by decide) _)
  unfold poll
  rw [hmost]
  unfold pollWithin
  cases hpop : e.timers.popDue now with
  | none => exact absurd hdue (Timers.popDue_eq_none.1 hpop t ht)
  | some popped => exact Nat.succ_pos _

/-! ## Going on -/

theorem advance_of_end {n : Node} (hfree : e.Free) (hn : e.currentNode? = some n)
    (hend : n.type = .chapterEnd) : e.advance now = .ok (e.finishChapter n) := by
  unfold advance
  simp only [hindrance?_eq_none.2 hfree, hn, hend]

theorem advance_of_next {n : Node} {next : String} (hfree : e.Free) (hn : e.currentNode? = some n)
    (htype : n.type ∉ [.choice, .condition, .chapterEnd]) (hnext : n.next? = some next) :
    e.advance now = .ok ((e.goTo now next).settledFrom n.id) := by
  simp only [List.mem_cons, List.not_mem_nil, or_false, not_or] at htype
  unfold advance
  simp only [hindrance?_eq_none.2 hfree, hn, hnext]
  split <;> simp_all

/-- Where no timer is live, the story can go on. -/
theorem OnWay.free (h : e.OnWay c left) (hnone : e.timers.live = []) : e.Free := by
  refine ⟨h.playing, ?_⟩
  rw [Timers.transitionPending, hnone]
  rfl

end Engine

/-! ## Rounds -/

namespace Procedure

/-- Waits for the next timer, if there is one, and lets the timers fire that are due then. If there
is none, goes on. The answer is the time at the end. -/
def round (now : Int64) : Procedure Int64 := do
  match (← engine).timers.nextDue? with
  | some due =>
    let later := max now due
    let _ ← poll later
    return later
  | none =>
    let _ ← advance now
    return now

/-- So many rounds, one after the other. -/
def rounds : Nat → Int64 → Procedure Int64
  | 0, now => return now
  | n + 1, now => do rounds n (← round now)

/-- Starts at a chapter, and makes so many rounds from there. -/
def playThrough (now : Int64) (stage chapter : Option String) (count : Nat) :
    Procedure Int64 := do
  let _ ← start now stage chapter
  rounds count now

end Procedure

namespace Performance

open Procedure

variable {p : Performance} {now : Int64} {c : Chapter} {left : Nat}

/-- A round brings the story nearer to its end: it stays in its chapter, tells of no end, and has
less to be done. -/
structure Nears (p : Performance) (c : Chapter) (left : Nat) (q : Performance) : Prop where
  paced : q.engine.Paced
  onWay : ∃ less, less < left ∧ q.engine.OnWay c less
  persists : p.Persists q

/-- Waiting for a timer brings the story nearer to its end. -/
theorem poll_nears {t : Timer} (hpaced : p.engine.Paced) (hway : p.engine.OnWay c left)
    (ht : t ∈ p.engine.timers.live) (hdue : t.due ≤ now) :
    ∃ answer q, Procedure.poll now p = .ok answer q ∧ p.Nears c left q := by
  have hfired := Engine.fired_poll_pos ht hdue
  obtain ⟨hpaced', less, hless, hway'⟩ := Engine.onWay_pollWithin now
    p.engine.pollLimit hpaced hway
  have hpersists := Engine.persists_pollWithin (e := p.engine) now p.engine.pollLimit
    fun hended => by simp [hway.playing] at hended
  refine ⟨_, _, perform_eq now p (.call .poll), hpaced', ⟨less, ?_, hway'⟩,
    .of_engine hpersists rfl⟩
  change less + (p.engine.poll now).fired ≤ left at hless
  omega

/-- Going on where nothing is to be waited for brings the story nearer to its end, or ends the
chapter. -/
theorem advance_nears_or_ends (now : Int64) (hway : p.engine.OnWay c left)
    (hnone : p.engine.timers.live = []) :
    ∃ q, Procedure.advance now p = .ok .done q ∧
      (p.Nears c left q ∨ ∃ ending, p.Ends now ending q) := by
  have hfree := hway.free hnone
  have hadvance := perform_eq now p (.call .advance)
  obtain ⟨n, hops, images, hn, hahead, hleft⟩ := hway.node
  have hcurrent : p.engine.currentNode? = some n := by
    rw [Engine.currentNode?, hway.chapter]
    exact hn
  change Procedure.advance now p = settle p (Outcome.response (p.engine.advance now)) at hadvance
  cases hahead with
  | atEnd hend =>
    have hends := Engine.ends_finishChapter hfree hcurrent hend
    rw [Engine.advance_of_end hfree hcurrent hend] at hadvance
    exact ⟨_, hadvance, .inr ⟨_, .of_engine hends hadvance rfl⟩⟩
  | hop htype hnext hrest =>
    rename_i next hops
    have hgone := Engine.onWay_goTo now hway.playing hway.chapter hrest
    have hpersists := Engine.persists_settled hfree (Engine.stays_goTo p.engine now next)
      (Engine.status_goTo p.engine now next) n.id
    rw [Engine.advance_of_next hfree hcurrent htype hnext] at hadvance
    refine ⟨_, hadvance, .inl ⟨Engine.paced_goTo hfree next, ⟨_, ?_, hgone⟩,
      .of_engine hpersists rfl⟩⟩
    omega

theorem le_max_right (now due : Int64) : due ≤ max now due := by
  change due ≤ if now ≤ due then due else now
  split
  · exact Int64.le_refl due
  · rename_i hlater
    exact Int64.le_of_lt (Int64.not_le.1 hlater)

/-- A round brings the story nearer to its end, or ends the chapter. -/
theorem round_nears_or_ends (now : Int64) (hpaced : p.engine.Paced)
    (hway : p.engine.OnWay c left) :
    ∃ later q, Procedure.round now p = .ok later q ∧
      (p.Nears c left q ∨ ∃ ending, p.Ends now ending q) := by
  unfold Procedure.round
  rw [bind_engine]
  cases hnext : p.engine.timers.nextDue? with
  | some due =>
    obtain ⟨t, ht, rfl⟩ := List.mem_map.1 (List.min?_mem hnext)
    obtain ⟨answer, q, hpoll, hnears⟩ := poll_nears hpaced hway ht (le_max_right now t.due)
    exact ⟨max now t.due, q, bind_ok hpoll, .inl hnears⟩
  | none =>
    have hnone : p.engine.timers.live = [] := List.map_eq_nil_iff.1 (List.min?_eq_none_iff.1 hnext)
    obtain ⟨q, hadvance, hq⟩ := advance_nears_or_ends now hway hnone
    exact ⟨now, q, bind_ok hadvance, hq⟩

/-- An end of the story is an end, so it is enough to look at the ends that are told. -/
theorem count_storyEnded (k : Nat) (heard : List Notice) :
    (heardBy k heard).count .storyEnded = (heardBy k (endings heard)).count .storyEnded := by
  unfold heardBy endings
  simp only [List.count, List.countP_map, List.countP_filter]
  refine List.countP_congr fun n _ => ?_
  cases n with
  | mk observer event => cases event <;> simp [Event.isEnd]

/-- No more rounds are needed than there is left to be done, and one for the end itself. -/
theorem exists_rounds (now : Int64) (hpaced : p.engine.Paced) (hway : p.engine.OnWay c left) :
    ∃ n ≤ left + 1, ∃ later q, rounds n now p = .ok later q ∧ q.engine.run.status = .ended ∧
      ∀ k < p.engine.observers, (heardBy k q.heard).count .storyEnded =
        (heardBy k p.heard).count .storyEnded + 1 := by
  induction left using Nat.strong_induction_on generalizing p now with
  | _ left ih =>
    obtain ⟨later, q, hround, hnears | ⟨ending, hends⟩⟩ := round_nears_or_ends now hpaced hway
    · obtain ⟨less, hless, hway'⟩ := hnears.onWay
      obtain ⟨n, hn, last, final, hrounds, hended, hcount⟩ := ih less hless later hnears.paced hway'
      refine ⟨n + 1, by omega, last, final, (bind_ok hround).trans hrounds, hended, fun k hk => ?_⟩
      rw [hcount k (hnears.persists.stays.observers ▸ hk), count_storyEnded k q.heard,
        hnears.persists.quiet, ← count_storyEnded]
    · refine ⟨1, by omega, later, q, (bind_ok hround).trans rfl, hends.ended, fun k hk => ?_⟩
      rw [count_storyEnded k q.heard, hends.heardBy_endings hk, List.count_append,
        ← count_storyEnded]
      rfl

end Performance

/-! ## Main result -/

/-- A chapter whose entry leads to an end over nodes that are neither choices nor conditions is
played to that end by hand in a number of rounds that the nodes bound, whatever the engine, the time
and the variables. No round fails, and every observer hears once that the story has ended. -/
theorem Procedure.plays_to_end (p : Performance) (now : Int64) {stage chapter : Option String}
    {inStage : Stage} {c : Chapter} {entry : String} {hops images : Nat}
    (hfound : p.engine.story.resolve stage chapter = .ok (inStage, c))
    (hentry : c.entry? = some entry) (hleads : c.LeadsToEnd hops images entry) :
    ∃ n ≤ hops + 3 * images + 1, ∃ later q,
      playThrough now stage chapter n p = .ok later q ∧ q.engine.run.status = .ended ∧
      ∀ k < p.engine.observers, (heardBy k q.heard).count .storyEnded =
        (heardBy k p.heard).count .storyEnded + 1 := by
  let begun := (p.engine.anew now inStage c).beginChapter now c
  have hchapter : ((p.engine.anew now inStage c).atNode entry).currentChapter? = some c :=
    Story.chapter?_of_resolve hfound
  have hfree : ((p.engine.anew now inStage c).atNode entry).Free := ⟨rfl, rfl⟩
  have hbegun : begun = Engine.walk now c p.engine.settings.maxAutoSteps
      ((p.engine.anew now inStage c).atNode entry) entry := by
    unfold begun Engine.beginChapter
    rw [hentry]
    rfl
  have hpaced : begun.Paced := hbegun ▸ Engine.paced_walk _ hfree hchapter
  have hway : begun.OnWay c (hops + 3 * images) :=
    hbegun ▸ Engine.onWay_walk _ hfree.1 hchapter hleads
  have hstart : start now stage chapter p =
      .ok .done ⟨begun, p.heard ++ begun.notices true⟩ := by
    have hresponse : p.engine.start now stage chapter = .ok (begun, begun.notices true) := by
      unfold Engine.start
      rw [hfound]
      rfl
    rw [start_eq, hresponse]
    rfl
  obtain ⟨n, hn, later, q, hrounds, hended, hcount⟩ :=
    Performance.exists_rounds (p := ⟨begun, p.heard ++ begun.notices true⟩) now hpaced hway
  refine ⟨n, hn, later, q, (bind_ok hstart).trans hrounds, hended, fun k hk => ?_⟩
  have hobservers : begun.observers = p.engine.observers := (Engine.stays_beginChapter ..).observers
  rw [hcount k (hobservers ▸ hk), Performance.count_storyEnded, endings_append,
    Engine.endings_notices, List.append_nil, ← Performance.count_storyEnded]

namespace Gallery

/-- The hall that has a way out. -/
def hallWithExit : Chapter where
  id := "hall"
  nodes := [door, dawn, { dusk with next := some "exit" }, exit]

/-- The hall leads from the door past two pictures to the way out. -/
theorem hall_leads_to_exit : hallWithExit.LeadsToEnd 3 2 "door" := by
  have hexit : hallWithExit.LeadsToEnd 0 0 "exit" := .atEnd (n := exit) (by decide +kernel) rfl
  have hdusk : hallWithExit.LeadsToEnd 1 1 "dusk" :=
    .hop (n := { dusk with next := some "exit" }) (by decide +kernel) (by decide) rfl hexit
  have hdawn : hallWithExit.LeadsToEnd 2 2 "dawn" :=
    .hop (n := dawn) (by decide +kernel) (by decide) rfl hdusk
  exact .hop (n := door) (by decide +kernel) (by decide) rfl hdawn

/-- The hall is played to its end, from a new engine that two observers watch. -/
theorem plays_to_end_hall :
    ∃ n ≤ 10, ∃ later q, Procedure.playThrough 0 none none n
        ⟨{ story := { stages := [house] }, observers := 2 }, []⟩ = .ok later q ∧
      q.engine.run.status = .ended ∧
      ∀ k < 2, (heardBy k q.heard).count .storyEnded = 1 := by
  have hfound : Story.resolve { stages := [house] } none none = .ok (house, hallWithExit) := by
    decide +kernel
  exact Procedure.plays_to_end ⟨{ story := { stages := [house] }, observers := 2 }, []⟩ 0 hfound
    (by decide +kernel) hall_leads_to_exit

end Gallery
end BranchingStory
