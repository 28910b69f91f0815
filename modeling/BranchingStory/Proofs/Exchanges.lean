import BranchingStory.Proofs.Firings
import BranchingStory.Proofs.Procedures
import BranchingStory.Proofs.Slots
/-!
# An image that gives way to another one

A directive with an effect for the exit lets the image in its slot leave, and schedules a timer that
takes it away in the end. Until that timer is due the image stays on its way out, whatever else is
done meanwhile, as long as no node is entered that has an image for the slot. The first poll at
which the timer is due takes it away. The new image is there at once, or it comes at that poll.
-/

namespace BranchingStory

/-- Whether a node leaves a slot alone. -/
def Node.spares (slot : Slot) (n : Node) : Bool := n.directive?.all (·.picture.slot ≠ slot)

/-- What is asked of an engine meanwhile, while nothing is started anew and no node is entered that
has an image for a slot, and the engine after that. Whatever is refused changes nothing. Serial
numbers never run out, and every poll comes to its end. -/
inductive Meanwhile (slot : Slot) : Engine → List (Int64 × Request) → Engine → Prop
  | nil (e : Engine) : Meanwhile slot e [] e
  | call {e last : Engine} {now : Int64} {c : Call} {course : Course}
      {rest : List (Int64 × Request)} (h : e.course now c = .ok course)
      (hanew : c.startsAnew = false) (hsteady : course.Steady)
      (hpolled : c = .poll → now = Int64.maxValue → course.final.timers.popDue now = none)
      (hspared : ∀ n ∈ course.entered, n.spares slot)
      (hrest : Meanwhile slot course.final rest last) :
    Meanwhile slot e ((now, .call c) :: rest) last
  | refused {e last : Engine} {now : Int64} {r : Request} {failure : Failure}
      {rest : List (Int64 × Request)} (h : e.respond now r = .error failure)
      (hrest : Meanwhile slot e rest last) : Meanwhile slot e ((now, r) :: rest) last

namespace Engine

/-- An image is on stage, and its timer takes it away at a time. -/
def Leaves (e : Engine) (old : StageImage) (due : Int64) : Prop :=
  old ∈ e.run.scene.images ∧ ∃ t ∈ e.timers.live, t.action = .removeImage old.serial ∧ t.due = due

/-- An image is gone, and its serial number is used up. -/
def Lost (e : Engine) (old : StageImage) : Prop :=
  old.serial ≤ e.imageCounter ∧ ∀ i ∈ e.run.scene.images, i.serial ≠ old.serial

/-- The image of a directive comes at a time. -/
def Comes (e : Engine) (node : String) (d : ImageDirective) (due : Int64) : Prop :=
  ∃ t ∈ e.timers.live, t.action = .showImage node d ∧ t.due = due

/-- An image is on stage and stays there. -/
def Stands (e : Engine) (i : StageImage) : Prop := i ∈ e.run.scene.images ∧ i.exiting = false

/-- What is so of an engine until a timer fires that is due at some time, and what is so from then
on, as long as no node is entered with an image for a slot. -/
structure Turns (slot : Slot) (due : Int64) (P Q : Engine → Prop) : Prop where
  waits : ∀ {e}, P e → ∃ t ∈ e.timers.live, t.due = due
  congr : ∀ {e e' : Engine}, e'.timers = e.timers → e'.run.scene = e.run.scene →
    e'.imageCounter = e.imageCounter → (P e → P e') ∧ (Q e → Q e')
  enters : ∀ {now a b}, Enters now a b → a.engine.imageCounter ≤ b.engine.imageCounter →
    a.engine.Staged (fun _ => True) → (∀ n, b.entered = some n → n.spares slot) →
    (P a.engine → P b.engine) ∧ (Q a.engine → Q b.engine)
  fires : ∀ {now a b}, Fires now a b → a.engine.imageCounter ≤ b.engine.imageCounter →
    a.engine.Staged (fun _ => True) →
    (P a.engine → P b.engine ∨ due ≤ now ∧ Q b.engine) ∧ (Q a.engine → Q b.engine)

variable {late : Timer → Prop} {e : Engine} {now due : Int64} {node : String} {d : ImageDirective}
  {slot : Slot} {old i : StageImage} {n : Node} {t : Timer} {P Q : Engine → Prop}

/-! ## Where a slot is spared -/

theorem mem_images_enter (h : e.Staged late) (hspares : n.spares i.slot) :
    i ∈ (e.enter now n).1.run.scene.images ↔ i ∈ e.run.scene.images := by
  have hother {d : ImageDirective} (hd : n.directive? = some d) : i.slot ≠ d.picture.slot := by
    intro hslot
    simp [Node.spares, hd, hslot] at hspares
  have hentered := Engine.enters e now n
  generalize e.enter now n = after at hentered
  cases hentered with
  | plain => rfl
  | image d hd => exact mem_images_direct h (hother hd)
  | wait d hd => exact mem_images_direct h (hother hd)

theorem mem_live_of_spares (h : t ∈ e.timers.live) (hspares : n.spares slot)
    (hfills : ∀ other, t.action.fills other → other = slot) :
    t ∈ (e.enter now n).1.timers.live := by
  refine (mem_live_enter h now n).resolve_right ?_
  rintro ⟨d, hd, hd'⟩
  have hslot := hfills _ hd'
  simp [Node.spares, hd, hslot] at hspares

/-- While another timer fires, a timer stays. -/
theorem mem_live_fires {a b : Moment} (h : Fires now a b) (ht : t ∈ a.engine.timers.live)
    (hother : ∀ action timers, a.engine.timers.popDue now = some (action, timers) →
      t.action ≠ action) : t ∈ b.engine.timers.live := by
  have herase {action : Deferred} {timers : Timers}
      (hdue : a.engine.timers.popDue now = some (action, timers)) : t ∈ timers.live := by
    obtain ⟨timer, -, -, haction, rfl, -⟩ := Timers.of_popDue hdue
    rw [Timers.live_erase]
    refine (List.mem_erase_of_ne ?_).2 ht
    rintro rfl
    exact hother _ _ hdue haction
  cases h with
  | remove hdue => exact herase hdue
  | bring hdue => exact herase hdue
  | moveOn hdue => exact herase hdue

/-! ## The image that leaves -/

/-- An image that has gone does not come back. -/
theorem Lost.later {e' : Engine} (h : e.Lost old) (hlater : e.Later e') : e'.Lost old := by
  refine ⟨UInt64.le_trans h.1 hlater.counter, fun i hi hserial => ?_⟩
  rcases hlater.images i hi with ⟨j, hj, hsame, -⟩ | hlt
  · exact h.2 j hj (hsame.trans hserial)
  · exact absurd h.1 (UInt64.not_le.2 (hserial ▸ hlt))

/-- An image on its way out stays so until its timer fires, and then it is gone. -/
theorem turns_leaving (hexiting : old.exiting) (hslot : old.slot = slot) :
    Turns slot due (·.Leaves old due) (·.Lost old) where
  waits := by
    rintro e ⟨-, t, ht, -, hdue⟩
    exact ⟨t, ht, hdue⟩
  congr := by
    intro e e' htimers hscene hcounter
    unfold Leaves Lost
    rw [htimers, hscene, hcounter]
    exact ⟨id, id⟩
  enters := by
    intro now a b h hroom hstaged hspared
    have hlater : a.engine.Later b.engine := Follows.later (.inl h) hroom
    refine ⟨?_, (·.later hlater)⟩
    obtain ⟨hchapter, honward, hnode⟩ := h
    rename_i chapter id n
    have hspares : n.spares slot := hspared n rfl
    have hat : (a.engine.atNode id).Staged fun _ => True := hstaged.congr rfl rfl rfl
    rintro ⟨hmem, t, ht, haction, hdue⟩
    refine ⟨(mem_images_enter hat (hslot ▸ hspares)).2 hmem, t, ?_, haction, hdue⟩
    refine mem_live_of_spares (e := a.engine.atNode id) ht hspares fun other hfills => ?_
    rw [haction] at hfills
    cases hfills
  fires := by
    intro now a b h hroom hstaged
    have hlater : a.engine.Later b.engine := Follows.later (.inr h) hroom
    refine ⟨?_, (·.later hlater)⟩
    rintro ⟨hmem, t, ht, haction, hdue⟩
    by_cases hpop : ∃ timers, a.engine.timers.popDue now = some (.removeImage old.serial, timers)
    · right
      obtain ⟨timers, hpop⟩ := hpop
      obtain ⟨timer, htimer, hnow, haction', -, -⟩ := Timers.of_popDue hpop
      rw [hstaged.timers.live_eq] at ht htimer
      rw [← hdue, hstaged.eq_of_removes ht htimer haction haction']
      refine ⟨hnow, UInt64.le_trans (hstaged.scene.counted old hmem) hroom, fun i hi => ?_⟩
      cases h with
      | remove hpop' =>
        obtain ⟨rfl, -⟩ : _ ∧ _ := by simpa [hpop] using hpop'
        simpa using (List.mem_filter.1 hi).2
      | bring hpop' => simp [hpop] at hpop'
      | moveOn hpop' => simp [hpop] at hpop'
    · left
      have hlive : t ∈ b.engine.timers.live := by
        refine mem_live_fires h ht fun action timers hpop' hsame => hpop ⟨timers, ?_⟩
        rw [hpop', ← hsame, haction]
      refine ⟨?_, t, hlive, haction, hdue⟩
      cases h with
      | remove hpop' =>
        refine List.mem_filter.2 ⟨hmem, decide_eq_true ?_⟩
        rintro rfl
        exact hpop ⟨_, hpop'⟩
      | bring hpop' =>
        exact List.mem_append_left _ (List.mem_filter.2 ⟨hmem, by simp [hexiting]⟩)
      | moveOn hpop' => exact hmem

/-! ## The image that comes -/

/-- An image that stays does so as long as nothing else is directed into its slot. -/
theorem Stands.enters {a b : Moment} (h : Enters now a b)
    (hstaged : a.engine.Staged fun _ => True)
    (hspared : ∀ n, b.entered = some n → n.spares i.slot) (hi : a.engine.Stands i) :
    b.engine.Stands i := by
  obtain ⟨hchapter, honward, hnode⟩ := h
  rename_i chapter id n
  have hat : (a.engine.atNode id).Staged fun _ => True := hstaged.congr rfl rfl rfl
  exact ⟨(mem_images_enter hat (hspared n rfl)).2 hi.1, hi.2⟩

theorem Stands.fires {a b : Moment} (h : Fires now a b) (hstaged : a.engine.Staged fun _ => True)
    (hi : a.engine.Stands i) : b.engine.Stands i := by
  refine ⟨?_, hi.2⟩
  cases h with
  | remove hdue =>
    obtain ⟨timer, hlive, -, haction, -⟩ := Timers.of_popDue hdue
    rw [hstaged.timers.live_eq] at hlive
    refine List.mem_filter.2 ⟨hi.1, decide_eq_true fun hserial => ?_⟩
    have hexiting := (hstaged.removal timer hlive _ haction).2 i hi.1 hserial
    exact Bool.false_ne_true (hi.2.symm.trans hexiting)
  | bring hdue =>
    rename_i node d timers
    obtain ⟨timer, hlive, -, haction, -⟩ := Timers.of_popDue hdue
    rw [hstaged.timers.live_eq] at hlive
    refine (mem_showImage fun hslot => ?_).2 hi.1
    have hfills : timer.action.fills i.slot := by simp [haction, Deferred.fills, hslot]
    have hexiting := hstaged.vacated timer hlive i.slot hfills i hi.1 rfl
    exact Bool.false_ne_true (hi.2.symm.trans hexiting)
  | moveOn hdue => exact hi.1

theorem turns_standing (hslot : i.slot = slot) :
    Turns slot due (fun _ => False) (·.Stands i) where
  waits := False.elim
  congr := by
    intro e e' _ hscene _
    unfold Stands
    rw [hscene]
    exact ⟨id, id⟩
  enters := by
    subst hslot
    exact fun h _ hstaged hspared => ⟨False.elim, .enters h hstaged hspared⟩
  fires h _ hstaged := ⟨False.elim, .fires h hstaged⟩

/-- An image is to come until its timer fires, and then it stays. -/
theorem turns_coming (hslot : d.picture.slot = slot) :
    Turns slot due (·.Comes node d due)
      (fun e => ∃ serial, e.Stands (.ofDirective node serial d)) where
  waits := by
    rintro e ⟨t, ht, -, hdue⟩
    exact ⟨t, ht, hdue⟩
  congr := by
    intro e e' htimers hscene _
    unfold Comes Stands
    rw [htimers, hscene]
    exact ⟨id, id⟩
  enters := by
    intro now a b h hroom hstaged hspared
    refine ⟨?_, fun ⟨serial, hi⟩ => ⟨serial, .enters h hstaged ?_ hi⟩⟩
    · obtain ⟨hchapter, honward, hnode⟩ := h
      rename_i chapter id n
      rintro ⟨t, ht, haction, hdue⟩
      refine ⟨t, ?_, haction, hdue⟩
      refine mem_live_of_spares (e := a.engine.atNode id) ht (hspared n rfl) fun other hfills => ?_
      rw [haction] at hfills
      exact (of_decide_eq_true hfills).symm.trans hslot
    · subst hslot
      exact hspared
  fires := by
    intro now a b h hroom hstaged
    refine ⟨?_, fun ⟨serial, hi⟩ => ⟨serial, .fires h hstaged hi⟩⟩
    rintro ⟨t, ht, haction, hdue⟩
    by_cases hpop : ∃ timers, a.engine.timers.popDue now = some (.showImage node d, timers)
    · right
      obtain ⟨timers, hpop⟩ := hpop
      obtain ⟨timer, htimer, hnow, haction', -, -⟩ := Timers.of_popDue hpop
      rw [hstaged.timers.live_eq] at ht htimer
      have hfills {t : Timer} (haction : t.action = .showImage node d) :
          t.action.fills d.picture.slot := by simp [haction, Deferred.fills]
      rw [← hdue, hstaged.eq_of_fills ht htimer (hfills haction) (hfills haction')]
      refine ⟨hnow, a.engine.imageCounter + 1, ?_, rfl⟩
      cases h with
      | remove hpop' => simp [hpop] at hpop'
      | bring hpop' =>
        obtain ⟨⟨rfl, rfl⟩, -⟩ : (_ ∧ _) ∧ _ := by simpa [hpop] using hpop'
        exact List.mem_append_right _ (.head _)
      | moveOn hpop' => simp [hpop] at hpop'
    · left
      refine ⟨t, ?_, haction, hdue⟩
      refine mem_live_fires h ht fun action timers hpop' hsame => hpop ⟨timers, ?_⟩
      rw [hpop', ← hsame, haction]

/-! ## From moment to moment, and from call to call -/

theorem Turns.through (h : Turns slot due P Q) {polling : Prop} {a : Moment} {later : List Moment}
    (hchain : (a :: later).IsChain fun a b => (Enters now a b ∨ polling ∧ Fires now a b) ∧
      a.engine.imageCounter ≤ b.engine.imageCounter)
    (hstaged : a.engine.Staged fun _ => True)
    (hspared : ∀ n ∈ later.filterMap (·.entered), n.spares slot) :
    (P a.engine → P (a.engine.through later) ∨
      (polling ∧ due ≤ now) ∧ Q (a.engine.through later)) ∧
    (Q a.engine → Q (a.engine.through later)) := by
  induction later generalizing a with
  | nil => exact ⟨.inl, id⟩
  | cons b rest ih =>
    obtain ⟨⟨hab, hroom⟩, hrest⟩ := List.isChain_cons_cons.1 hchain
    have hnext : b.engine.Staged fun _ => True :=
      Follows.staged (hab.imp_right And.right) hroom (fun _ _ => trivial) hstaged
    have hentered (n : Node) (hn : b.entered = some n) : n.spares slot :=
      hspared n (List.mem_filterMap.2 ⟨b, .head _, hn⟩)
    have hlater (n : Node) (hn : n ∈ rest.filterMap (·.entered)) : n.spares slot := by
      obtain ⟨m, hm, hentered⟩ := List.mem_filterMap.1 hn
      exact hspared n (List.mem_filterMap.2 ⟨m, .tail _ hm, hentered⟩)
    obtain ⟨hP, hQ⟩ := ih hrest hnext hlater
    rw [through_cons]
    rcases hab with hab | ⟨hpolling, hab⟩
    · obtain ⟨hP', hQ'⟩ := h.enters hab hroom hstaged hentered
      exact ⟨hP ∘ hP', hQ ∘ hQ'⟩
    · obtain ⟨hP', hQ'⟩ := h.fires hab hroom hstaged
      refine ⟨fun ha => ?_, hQ ∘ hQ'⟩
      rcases hP' ha with hb | ⟨hdue, hb⟩
      · exact hP hb
      · exact .inr ⟨⟨hpolling, hdue⟩, hQ hb⟩

/-- Timers fire in a poll only. -/
theorem isChain_polling {c : Call} {course : Course} (h : e.course now c = .ok course)
    (hsteady : course.Steady) :
    course.moments.IsChain fun a b => (Enters now a b ∨ c = .poll ∧ Fires now a b) ∧
      a.engine.imageCounter ≤ b.engine.imageCounter := by
  refine isChain_and ?_ hsteady
  have hchain := (course_opens h).2
  split at hchain
  · rename_i hpoll
    exact hchain.imp fun _ _ hab => hab.imp_right fun hfires => ⟨hpoll, hfires⟩
  · exact hchain.imp fun _ _ hab => .inl hab

/-- A call that starts nothing anew begins with the images and timers that there are. -/
theorem kept_opening {c : Call} {a : Moment} (h : Opens e now c a)
    (hanew : c.startsAnew = false) : a.engine.timers = e.timers ∧
      a.engine.run.scene = e.run.scene ∧ a.engine.imageCounter = e.imageCounter := by
  cases h with
  | anew _ hc => rcases hc with rfl | ⟨stage, chapter, rfl⟩ <;> cases hanew
  | movedInto => cases hanew
  | _ => exact ⟨rfl, rfl, rfl⟩

/-- It is a poll, and no other call, that lets a timer fire, and only one that is due. -/
theorem Turns.course (h : Turns slot due P Q) {c : Call} {course : Course}
    (hcourse : e.course now c = .ok course) (hanew : c.startsAnew = false)
    (hsteady : course.Steady)
    (hpolled : c = .poll → now = Int64.maxValue → course.final.timers.popDue now = none)
    (hspared : ∀ n ∈ course.entered, n.spares slot) (hstaged : e.Staged fun _ => False) :
    (P e → if c = .poll ∧ due ≤ now then Q course.final else P course.final) ∧
    (Q e → Q course.final) := by
  have hanytime : e.Staged fun _ => True := hstaged.imp fun _ => False.elim
  have hopens := (course_opens hcourse).1
  obtain ⟨htimers, hscene, hcounter⟩ := kept_opening hopens hanew
  obtain ⟨hPopen, hQopen⟩ := h.congr htimers hscene hcounter
  obtain ⟨hP, hQ⟩ := h.through (isChain_polling hcourse hsteady) (hopens.staged hanytime) hspared
  refine ⟨fun he => ?_, hQ ∘ hQopen⟩
  have hfinal : P course.final ∨ (c = .poll ∧ due ≤ now) ∧ Q course.final := hP (hPopen he)
  split
  · rename_i hpoll
    refine (hfinal.resolve_left fun hwaiting => ?_).2
    obtain ⟨rfl, hdue⟩ := hpoll
    obtain ⟨t, ht, rfl⟩ := h.waits hwaiting
    exact Timers.popDue_eq_none.1 (popDue_final hcourse (hpolled rfl)) t ht hdue
  · rename_i hpoll
    exact hfinal.resolve_right fun hturned => hpoll hturned.1

end Engine

namespace Meanwhile

variable {slot : Slot} {e last : Engine} {requests : List (Int64 × Request)} {due : Int64}
  {P Q : Engine → Prop}

theorem staged (h : Meanwhile slot e requests last) (he : e.Staged fun _ => False) :
    last.Staged fun _ => False := by
  induction h with
  | nil => exact he
  | call h _ hsteady hpolled _ _ ih => exact ih (Engine.staged_final h hsteady hpolled he)
  | refused _ _ ih => exact ih he

/-- A call that goes through may be made meanwhile. -/
theorem after {now : Int64} {c : Call} {entered : List Node}
    (hproceeds : e.proceeds now c entered) (hanew : c.startsAnew = false)
    (hspared : ∀ n ∈ entered, n.spares slot)
    (hrest : Meanwhile slot (e.after now c) requests last) :
    Meanwhile slot e ((now, .call c) :: requests) last := by
  obtain ⟨course, hcourse, rfl, hsteady, hpolled, hafter⟩ := Engine.of_proceeds hproceeds
  rw [hafter] at hrest
  exact .call hcourse hanew hsteady (fun hpoll _ => hpolled hpoll) hspared hrest

/-- What is so until a timer fires is so up to the first poll at which it is due, and no longer. -/
theorem turns (h : Meanwhile slot e requests last) (hturns : Engine.Turns slot due P Q)
    (he : e.Staged fun _ => False) :
    (P e → (∀ p ∈ requests, p.2 = .call .poll → p.1 < due) → P last) ∧
    (P e → (∃ p ∈ requests, p.2 = .call .poll ∧ due ≤ p.1) → Q last) ∧ (Q e → Q last) := by
  induction h with
  | nil => exact ⟨fun h _ => h, fun _ ⟨p, hp, _⟩ => absurd hp List.not_mem_nil, id⟩
  | @call e last now c course rest hcourse hanew hsteady hpolled hspared hrest ih =>
    obtain ⟨hP, hQ⟩ := hturns.course hcourse hanew hsteady hpolled hspared he
    obtain ⟨hearly, hlate, hafter⟩ := ih (Engine.staged_final hcourse hsteady hpolled he)
    refine ⟨fun hbefore hall => ?_, fun hbefore hsome => ?_, hafter ∘ hQ⟩
    · obtain ⟨hfirst, hothers⟩ := List.forall_mem_cons.1 hall
      have hnot : ¬ (c = .poll ∧ due ≤ now) := fun ⟨hpoll, hdue⟩ =>
        Int64.not_le.2 (hfirst (congrArg Request.call hpoll)) hdue
      have hnext := hP hbefore
      rw [if_neg hnot] at hnext
      exact hearly hnext hothers
    · have hnext := hP hbefore
      split at hnext
      · exact hafter hnext
      · rename_i hnot
        obtain ⟨p, hp, hpoll, hdue⟩ := hsome
        rcases List.mem_cons.1 hp with rfl | hp
        · exact absurd ⟨Request.call.inj hpoll, hdue⟩ hnot
        · exact hlate hnext ⟨p, hp, hpoll, hdue⟩
  | @refused e last now r failure rest hrefused hrest ih =>
    obtain ⟨hearly, hlate, hafter⟩ := ih he
    refine ⟨fun hbefore hall => hearly hbefore (List.forall_mem_cons.1 hall).2,
      fun hbefore hsome => ?_, hafter⟩
    obtain ⟨p, hp, hpoll, hdue⟩ := hsome
    rcases List.mem_cons.1 hp with rfl | hp
    · obtain rfl : r = .call .poll := hpoll
      cases hrefused
    · exact hlate hbefore ⟨p, hp, hpoll, hdue⟩

end Meanwhile

namespace Engine

variable {e : Engine} {now : Int64} {node : String} {d : ImageDirective} {r : StageImage}
  {effect : ExitEffect}

/-! ## The exchange -/

theorem exitDuration_eq (e : Engine) (d : ImageDirective) :
    e.exitDuration d = if 0 < d.exitDuration.getD 0 then d.exitDuration.getD 0
      else e.settings.exitDuration := by
  unfold exitDuration
  cases d.exitDuration with
  | none => rfl
  | some duration =>
    by_cases h : 0 < duration
    · simp [Option.filter, h]
    · simp [Option.filter, h]

theorem direct_eq_exchange (hpath : d.picture.path ≠ "") (heffect : d.exitEffect = some effect)
    (hstill : effect ≠ .still) (hresident : e.run.scene.resident? d.picture.slot = some r) :
    e.direct now node d = (e.cleared d).exchange now node d r.serial effect := by
  have hremoval : d.isRemoval = false := by simpa [ImageDirective.isRemoval] using hpath
  have hexit : d.activeExit? = some effect := by
    simp [ImageDirective.activeExit?, heffect, Option.filter, hstill]
  have hcleared : (e.cleared d).run.scene.resident? d.picture.slot = some r := hresident
  have hdirect : e.direct now node d = (e.cleared d).bringImage now node d := by
    unfold direct
    rw [hremoval]
    rfl
  rw [hdirect, bringImage, hcleared, hexit]

/-- After an exchange the image before is on its way out, and the new one is still to come or is
there at once. -/
theorem exchange_begins (now : Int64) (node : String) (effect : ExitEffect)
    (hscene : e.run.scene.Sound e.imageCounter)
    (hresident : e.run.scene.resident? d.picture.slot = some r) :
    let after := e.exchange now node d r.serial effect
    let due := dueAfter now (e.exitDuration d)
    after.Leaves (r.leaving effect d.exitDuration) due ∧
    (d.timing = .sequential → after.Comes node d due) ∧
    (d.timing = .crossfade → after.Stands (.ofDirective node (e.imageCounter + 1) d)) := by
  intro after due
  obtain ⟨hmem, -, -⟩ := Scene.of_resident? hresident
  have hleaving : r.leaving effect d.exitDuration ∈
      (e.run.scene.beginExit r.serial effect d.exitDuration).images := by
    rw [hscene.images_beginExit]
    exact List.mem_map.2 ⟨r, hmem, if_pos rfl⟩
  have hremoval : ∃ t ∈ (e.timers.schedule due (.removeImage r.serial)).live,
      t.action = .removeImage r.serial ∧ t.due = due := by
    rw [Timers.live_schedule]
    exact ⟨_, .head _, rfl, rfl⟩
  unfold after exchange
  cases htiming : d.timing with
  | sequential =>
    have hboth : ∀ t, t ∈ ((e.timers.schedule due (.removeImage r.serial)).schedule due
        (.showImage node d)).live ↔ t = ⟨due, e.timers.lastNumber + 2, e.timers.epoch, _⟩ ∨
          t ∈ (e.timers.schedule due (.removeImage r.serial)).live := fun t => by
      rw [Timers.live_schedule, List.mem_cons]
      rfl
    obtain ⟨t, ht, hkind⟩ := hremoval
    exact ⟨⟨hleaving, t, (hboth t).2 (.inr ht), hkind⟩,
      fun _ => ⟨_, (hboth _).2 (.inl rfl), rfl, rfl⟩, nofun⟩
  | crossfade =>
    refine ⟨⟨?_, hremoval⟩, nofun, fun _ => ⟨?_, rfl⟩⟩
    · exact List.mem_append_left _ (List.mem_filter.2 ⟨hleaving, by simp [StageImage.leaving]⟩)
    · exact List.mem_append_right _ (.head _)

/-- An exchange begins when a node is entered whose directive asks for it. -/
theorem exchange_enters {late : Timer → Prop} {a b : Moment} {n : Node} (h : Enters now a b)
    (hn : b.entered = some n) (hstaged : a.engine.Staged late) (hkind : n.kind = .image (some d))
    (hpath : d.picture.path ≠ "") (heffect : d.exitEffect = some effect)
    (hstill : effect ≠ .still)
    (hresident : a.engine.run.scene.resident? d.picture.slot = some r) :
    let due := dueAfter now (a.engine.exitDuration d)
    b.engine.Leaves (r.leaving effect d.exitDuration) due ∧
    (d.timing = .sequential → b.engine.Comes n.id d due) ∧
    (d.timing = .crossfade →
      b.engine.Stands (.ofDirective n.id (a.engine.imageCounter + 1) d)) := by
  intro due
  obtain ⟨hchapter, honward, hnode⟩ := h
  rename_i chapter id n'
  obtain rfl : n' = n := Option.some.inj hn
  have hdirective := Node.directive?_eq_some.2 hkind
  have hcleared : ((a.engine.atNode id).cleared d).Staged late :=
    (hstaged.congr rfl rfl rfl : (a.engine.atNode id).Staged late).cleared d
  have hdirect : (a.engine.atNode id).direct now n'.id d = _ :=
    direct_eq_exchange hpath heffect hstill hresident
  have hbegins := exchange_begins now n'.id effect hcleared.scene hresident
  rw [← hdirect] at hbegins
  have hentered := Engine.enters (a.engine.atNode id) now n'
  generalize (a.engine.atNode id).enter now n' = after at hentered
  cases hentered with
  | plain hnone =>
    rw [hdirective] at hnone
    cases hnone
  | image d' hd =>
    obtain rfl := Option.some.inj (hdirective.symm.trans hd)
    exact hbegins
  | wait d' hd next _ _ _ later =>
    obtain rfl := Option.some.inj (hdirective.symm.trans hd)
    obtain ⟨⟨hleaving, t, ht, htimer⟩, hcomes, hstands⟩ := hbegins
    have hlive {t : Timer} (ht : t ∈ ((a.engine.atNode id).direct now n'.id d).timers.live) :
        t ∈ (((a.engine.atNode id).direct now n'.id d).timers.schedule later
          (.moveOn next)).live := by
      rw [Timers.live_schedule]
      exact .tail _ ht
    refine ⟨⟨hleaving, t, hlive ht, htimer⟩, fun htiming => ?_, hstands⟩
    obtain ⟨t', ht', htimer'⟩ := hcomes htiming
    exact ⟨t', hlive ht', htimer'⟩

theorem Stands.resident? {late : Timer → Prop} {i : StageImage} (h : e.Stands i)
    (hstaged : e.Staged late) : e.run.scene.resident? i.slot = some i :=
  hstaged.scene.resident?_eq h.1 rfl h.2

theorem Comes.resident? {late : Timer → Prop} {due : Int64} (h : e.Comes node d due)
    (hstaged : e.Staged late) : e.run.scene.resident? d.picture.slot = none := by
  obtain ⟨t, ht, haction, -⟩ := h
  rw [hstaged.timers.live_eq] at ht
  exact Scene.resident?_eq_none.2 (hstaged.vacated t ht _ (by simp [haction, Deferred.fills]))

end Engine

/-- The moments of a course from one of them on. -/
theorem Course.moments_drop {course : Course} {k : Nat} {a b : Moment}
    (ha : course.moments[k]? = some a) (hb : course.moments[k + 1]? = some b) :
    course.moments.drop k = a :: b :: course.moments.drop (k + 2) ∧
      course.final = b.engine.through (course.moments.drop (k + 2)) := by
  have hdrop : course.moments.drop k = a :: b :: course.moments.drop (k + 2) := by
    obtain ⟨hk, rfl⟩ := List.getElem?_eq_some_iff.1 ha
    obtain ⟨hk', rfl⟩ := List.getElem?_eq_some_iff.1 hb
    rw [List.drop_eq_getElem_cons hk, List.drop_eq_getElem_cons hk']
  refine ⟨hdrop, ?_⟩
  calc course.final
      = course.opening.engine.through (course.moments.take k ++ course.moments.drop k) := by
        rw [List.take_append_drop]
        rfl
    _ = b.engine.through (course.moments.drop (k + 2)) := by
        rw [hdrop, Engine.through_append]
        rfl

/-! ## Main result -/

/-- Where a picture with an effect for the exit comes to a slot that shows an image, that image is
on its way out up to the first poll at which the exit is over, and gone from then on, unless another
image is directed to the slot or something is started anew. A new image that waits comes with that
poll, and any other one at once. -/
theorem Run.exchange_in_time {s : Story} {log : List Node} {e : Engine} (h : Run s log e)
    {now : Int64} {c : Call} {course : Course} (hcourse : e.course now c = .ok course)
    (hsteady : course.Steady) {k : Nat} {a b : Moment} (ha : course.moments[k]? = some a)
    (hb : course.moments[k + 1]? = some b) {n : Node} (hn : b.entered = some n)
    {d : ImageDirective} (hkind : n.kind = .image (some d)) (hpath : d.picture.path ≠ "")
    {effect : ExitEffect} (heffect : d.exitEffect = some effect) (hstill : effect ≠ .still)
    {r : StageImage} (hresident : a.engine.run.scene.resident? d.picture.slot = some r)
    (hnow : now < Int64.maxValue) {duration : UInt64}
    (hduration : duration = if 0 < d.exitDuration.getD 0 then d.exitDuration.getD 0
      else e.settings.exitDuration) (hpositive : 0 < duration) {due : Int64}
    (hdue : due.toInt =
      min (now.toInt + min (duration.toNat : Int) Int64.maxValue.toInt) Int64.maxValue.toInt)
    (hspared : ∀ m ∈ (course.moments.drop (k + 2)).filterMap (·.entered), m.spares d.picture.slot)
    {requests : List (Int64 × Request)} {last : Engine}
    (hmeanwhile : Meanwhile d.picture.slot course.final requests last) :
    ((∀ p ∈ requests, p.2 = .call .poll → p.1 < due) →
      r.leaving effect d.exitDuration ∈ last.run.scene.images ∧
      (d.timing = .sequential → last.run.scene.resident? d.picture.slot = none)) ∧
    ((∃ p ∈ requests, p.2 = .call .poll ∧ due ≤ p.1) →
      (∀ i ∈ last.run.scene.images, i.serial ≠ r.serial) ∧
      (d.timing = .sequential → ∃ serial, last.run.scene.resident? d.picture.slot =
        some (.ofDirective n.id serial d))) ∧
    (d.timing = .crossfade → last.run.scene.resident? d.picture.slot =
      some (.ofDirective n.id (a.engine.imageCounter + 1) d)) := by
  obtain ⟨hdrop, hfinal⟩ := Course.moments_drop ha hb
  have hmem : a ∈ course.moments := List.mem_of_getElem? ha
  have hmemb : b ∈ course.moments := List.mem_of_getElem? hb
  have hanytime : e.Staged fun _ => True := h.staged.imp fun _ => False.elim
  have hstaged := Engine.staged_course hcourse hsteady (fun _ _ => trivial) hanytime
  have hchain := (Engine.isChain_polling hcourse hsteady).drop k
  rw [hdrop] at hchain
  obtain ⟨⟨hab, -⟩, hrest⟩ := List.isChain_cons_cons.1 hchain
  have henters : Enters now a b := by
    rcases hab with hab | ⟨-, hfires⟩
    · exact hab
    · cases hfires <;> cases hn
  have hends : now ≠ Int64.maxValue := fun heq => Int64.lt_irrefl (heq ▸ hnow)
  have hsettings : a.engine.settings = e.settings :=
    Engine.kept_course (f := (·.settings)) (fun _ _ _ _ => rfl) hcourse a hmem
  have hexit : dueAfter now (a.engine.exitDuration d) = due := by
    rw [Engine.exitDuration_eq, hsettings, ← hduration, ← Int64.toInt_inj, toInt_dueAfter, hdue]
  have hlater : ¬ due ≤ now := by
    rw [← hexit, Engine.exitDuration_eq, hsettings, ← hduration]
    exact not_dueAfter_le hends hpositive
  obtain ⟨hleaves, hcomes, hstands⟩ :=
    Engine.exchange_enters henters hn (hstaged a hmem) hkind hpath heffect hstill hresident
  rw [hexit] at hleaves hcomes
  obtain ⟨-, hslot, -⟩ := Scene.of_resident? hresident
  have hsettled := Engine.staged_final hcourse hsteady (fun _ heq => absurd heq hends) h.staged
  have hwaits {P Q : Engine → Prop} (hturns : Engine.Turns d.picture.slot due P Q)
      (hbegin : P b.engine) : P course.final := by
    have hthrough := (hturns.through hrest (hstaged b hmemb) hspared).1 hbegin
    rw [hfinal]
    exact hthrough.resolve_right fun hturned => hlater hturned.1.2
  have hlast := hmeanwhile.staged hsettled
  have hold : Engine.Turns d.picture.slot due
      (·.Leaves (r.leaving effect d.exitDuration) due) (·.Lost (r.leaving effect d.exitDuration)) :=
    Engine.turns_leaving rfl hslot
  have hnew : Engine.Turns d.picture.slot due (·.Comes n.id d due) _ := Engine.turns_coming rfl
  obtain ⟨hearly, hlate, -⟩ := hmeanwhile.turns hold hsettled
  obtain ⟨hearly', hlate', -⟩ := hmeanwhile.turns hnew hsettled
  refine ⟨fun hall => ⟨(hearly (hwaits hold hleaves) hall).1, fun htiming => ?_⟩,
    fun hsome => ⟨(hlate (hwaits hold hleaves) hsome).2, fun htiming => ?_⟩, fun htiming => ?_⟩
  · exact (hearly' (hwaits hnew (hcomes htiming)) hall).resident? hlast
  · obtain ⟨serial, hi⟩ := hlate' (hwaits hnew (hcomes htiming)) hsome
    exact ⟨serial, hi.resident? hlast⟩
  · have hstanding : Engine.Turns d.picture.slot due _
        (·.Stands (.ofDirective n.id (a.engine.imageCounter + 1) d)) := Engine.turns_standing rfl
    have hthrough := (hstanding.through hrest (hstaged b hmemb) hspared).2 (hstands htiming)
    rw [← hfinal] at hthrough
    exact ((hmeanwhile.turns hstanding hsettled).2.2 hthrough).resident? hlast

namespace Gallery

/-- The course of a poll at which the first picture has come in and the second one is directed into
its slot. -/
def turning : Course := ⟨⟨opening, none, none⟩, Engine.polled 300 opening.pollLimit opening⟩

/-- The first picture leaves for 400 milliseconds from 300 on. After a poll at 699 it is still on
its way out, and after one at 700 it is gone and the second one is there. -/
theorem exchange_in_time_turning :
    let early := turning.final.after 699 .poll
    let late := early.after 700 .poll
    (∃ i ∈ early.run.scene.images, i.serial = 1 ∧ i.exiting) ∧
      (∀ i ∈ late.run.scene.images, i.serial ≠ 1) ∧
      ∃ serial, late.run.scene.resident? wall =
        some { node := "dusk", serial, picture := duskPicture } := by
  intro early late
  have hcourse : opening.course 300 .poll = .ok turning := rfl
  have hsteady : turning.Steady := by
    unfold Course.Steady
    decide +kernel
  obtain ⟨a, ha, hresident⟩ := Option.map_eq_some_iff.1 (by decide +kernel :
    turning.moments[1]?.map (fun m : Moment => m.engine.run.scene.resident? wall) =
      some (some { node := "dawn", serial := 1, picture := dawnPicture }))
  obtain ⟨b, hb, hn⟩ := Option.map_eq_some_iff.1 (by decide +kernel :
    turning.moments[2]?.map (fun m : Moment => m.entered) = some (some dusk))
  have hspared : ∀ m ∈ (turning.moments.drop 3).filterMap (·.entered), m.spares wall := by
    decide +kernel
  have hnone {e : Engine} : Meanwhile wall e [] e := .nil e
  have hsecond : Meanwhile wall early [(700, .call .poll)] late :=
    .after (by decide +kernel : early.proceeds 700 .poll []) rfl (by simp) hnone
  have hfirst {rest : List (Int64 × Request)} {last : Engine} (h : Meanwhile wall early rest last) :
      Meanwhile wall turning.final ((699, .call .poll) :: rest) last :=
    .after (by decide +kernel : turning.final.proceeds 699 .poll []) rfl (by simp) h
  have hduration : (400 : UInt64) = if (0 : UInt64) < 400 then 400
      else opening.settings.exitDuration := by decide
  have hdue : (700 : Int64).toInt = min ((300 : Int64).toInt +
      min ((400 : UInt64).toNat : Int) Int64.maxValue.toInt) Int64.maxValue.toInt := by decide
  have hexchange {requests : List (Int64 × Request)} {last : Engine}
      (h : Meanwhile wall turning.final requests last) :=
    Run.exchange_in_time run_opening hcourse hsteady ha hb hn
      (rfl : dusk.kind = .image (some
        { picture := duskPicture, exitEffect := some .fadeOut, exitDuration := some 400 }))
      (by decide) rfl (by decide) hresident (by decide) hduration (by decide) hdue hspared h
  obtain ⟨hgone, hcome⟩ := (hexchange (hfirst hsecond)).2.1
    ⟨_, .tail _ (.head _), rfl, by decide⟩
  refine ⟨⟨_, ((hexchange (hfirst hnone)).1 (by simp)).1, rfl, rfl⟩, hgone, hcome rfl⟩

/-- A directive whose exit takes longer than any time can tell. -/
def slowDusk : ImageDirective :=
  { picture := duskPicture, exitEffect := some .fadeOut, exitDuration := some 9223372036854775808 }

/-- A story in which the first picture leaves more slowly than any time can tell. -/
def twilight : Story where
  stages := [{ id := "house", chapters := [{ id := "hall", nodes :=
    [door, dawn, { dusk with kind := .image (some slowDusk) }, label] }] }]

/-- The first picture is coming in, and has come in before time zero. -/
def night : Engine := ({ story := twilight } : Engine).after (-301) (.start none none)

theorem run_night : Run twilight [door, dawn] night :=
  (Run.fresh {} 0).after
    (by decide +kernel : Engine.proceeds _ (-301) (.start none none) [door, dawn])

/-- The course of a poll just before time zero, at which the second picture is directed into the
slot. -/
def breaking : Course := ⟨⟨night, none, none⟩, Engine.polled (-1) night.pollLimit night⟩

/-- An exit that is asked to take longer than the largest time there is takes no longer than that.
So one that begins before time zero may be over before the time to which it was to go on. -/
theorem not_exchange_in_time :
    ¬ ∀ (s : Story) (log : List Node) (e : Engine) (now : Int64) (c : Call) (course : Course)
        (k : Nat) (a b : Moment) (n : Node) (d : ImageDirective) (effect : ExitEffect)
        (r : StageImage) (duration : UInt64) (due : Int64) (requests : List (Int64 × Request))
        (last : Engine),
      Run s log e → e.course now c = .ok course → course.Steady →
      course.moments[k]? = some a → course.moments[k + 1]? = some b → b.entered = some n →
      n.kind = .image (some d) → d.picture.path ≠ "" → d.exitEffect = some effect →
      effect ≠ .still → a.engine.run.scene.resident? d.picture.slot = some r →
      now < Int64.maxValue →
      duration = (if 0 < d.exitDuration.getD 0 then d.exitDuration.getD 0
        else e.settings.exitDuration) → 0 < duration →
      due.toInt = min (now.toInt + duration.toNat) Int64.maxValue.toInt →
      (∀ m ∈ (course.moments.drop (k + 2)).filterMap (·.entered), m.spares d.picture.slot) →
      Meanwhile d.picture.slot course.final requests last →
      (∀ p ∈ requests, p.2 = .call .poll → p.1 < due) →
      r.leaving effect d.exitDuration ∈ last.run.scene.images := by
  intro h
  have hsteady : breaking.Steady := by
    unfold Course.Steady
    decide +kernel
  obtain ⟨a, ha, hresident⟩ := Option.map_eq_some_iff.1 (by decide +kernel :
    breaking.moments[1]?.map (fun m : Moment => m.engine.run.scene.resident? wall) =
      some (some { node := "dawn", serial := 1, picture := dawnPicture }))
  obtain ⟨b, hb, hn⟩ := Option.map_eq_some_iff.1 (by decide +kernel :
    breaking.moments[2]?.map (fun m : Moment => m.entered) =
      some (some { dusk with kind := .image (some slowDusk) }))
  have hspared : ∀ m ∈ (breaking.moments.drop 3).filterMap (·.entered), m.spares wall := by
    decide +kernel
  have hmeanwhile : Meanwhile wall breaking.final [(9223372036854775806, .call .poll)]
      (breaking.final.after 9223372036854775806 .poll) :=
    .after (by decide +kernel : breaking.final.proceeds 9223372036854775806 .poll []) rfl (by simp)
      (.nil _)
  have hstays := h twilight _ night (-1) .poll breaking 1 a b _ slowDusk .fadeOut _
    9223372036854775808 Int64.maxValue _ _ run_night rfl hsteady ha hb hn rfl
    (by decide) rfl (by decide) hresident (by decide) (by decide) (by decide) (by decide) hspared
    hmeanwhile (List.forall_mem_singleton.2 fun _ => by decide)
  exact absurd hstays (by decide +kernel)

end Gallery

end BranchingStory
