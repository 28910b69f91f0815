import BranchingStory.Proofs.Endings
/-!
# Choices that are offered and choices that are taken

What is offered at a choice node is what can be chosen there. No timer stands in the way, for the
story only waits at images, and the chapter has not ended, for it ends elsewhere. But a story that
has not been started may have offers all the same. It is at no node, in no chapter of no stage, and
yet something is found there if the story has a stage, a chapter in it and a choice node with empty
ids. What is offered then cannot be chosen.
-/

namespace BranchingStory

/-- The node that is found where neither a stage nor a chapter nor a node is named. -/
def Story.unnamed? (s : Story) : Option Node := (s.chapter? "" "").bind (·.node? "")

namespace Engine

/-- An engine that has not been started is in no chapter, and one whose chapter has ended is at a
node that is an end. -/
structure Placed (e : Engine) : Prop where
  idle : e.run.status = .idle → e.run.stage = "" ∧ e.run.chapter = ""
  ended : e.run.status = .ended → ∃ n, e.currentNode? = some n ∧ n.type = .chapterEnd

/-- What is offered at a position and what comes of choosing it. A choice is accepted just when it
is offered and can be picked. -/
structure Offering (e : Engine) (now : Int64) (index : UInt64) : Prop where
  accepted : (e.choose now index).isOk ↔ ∃ o, e.offers[index.toNat]? = some o ∧ o.enabled
  locked : ∀ o, e.offers[index.toNat]? = some o → o.enabled = false →
    e.choose now index = .error (.choiceLocked o.choice.id)
  beyond : (∃ n, e.currentNode? = some n ∧ n.type = .choice) → e.offers.length ≤ index.toNat →
    e.choose now index = .error (.choiceOutOfRange index e.offers.length)
  elsewhere : (∀ n, e.currentNode? = some n → n.type ≠ .choice) →
    e.offers = [] ∧ (e.choose now index).isOk = false

variable {e after : Engine} {now : Int64} {c : Call} {index : UInt64} {n : Node}
  {choices : List Choice}

/-! ## Where an engine is -/

/-- Whatever is not refused is heard of. -/
theorem exists_respond {answer : Answer} (h : e.call now c = .ok (answer, after)) :
    ∃ news, e.respond now (.call c) = .ok (answer, after, news) := by
  have hdone {o : Outcome} (h : o.map (fun o => (Answer.done, o.1)) = .ok (answer, after)) :
      ∃ news, o.response = .ok (answer, after, news) := by
    cases o with
    | error refusal => cases h
    | ok out =>
      cases h
      exact ⟨out.2, rfl⟩
  cases c with
  | poll =>
    cases h
    exact ⟨_, rfl⟩
  | _ => exact hdone h

/-- From one moment to the next a story neither starts nor ends. -/
theorem status_of_follows {a b : Moment} (h : Follows now a b) :
    b.engine.run.status = a.engine.run.status := by
  rcases h with ⟨hchapter, honward, hnode⟩ | hfires
  · rename_i chapter id n
    obtain ⟨store, backlog, scene, timers, imageCounter, hframe⟩ :=
      (a.engine.atNode id).enter_frame now n
    rw [hframe]
    rfl
  · cases hfires <;> rfl

/-- Whatever starts anew is being played. -/
theorem playing_of_startsAnew {answer : Answer} (hanew : c.startsAnew)
    (h : e.call now c = .ok (answer, after)) : after.run.status = .playing := by
  obtain ⟨course, hcourse, rfl⟩ := course_of_call h
  obtain ⟨m, hm, hfinal⟩ := course.exists_final
  have hopens := (course_opens hcourse).1
  have hopening : course.opening.engine.run.status = .playing := by
    generalize course.opening = opening at hopens
    cases hopens with
    | anew => rfl
    | movedInto => rfl
    | _ => cases hanew
  rw [← hfinal]
  exact course_keeps (I := fun m => m.engine.run.status = .playing) hcourse hopening
    (fun _ _ hab ha => (status_of_follows hab).trans ha) m hm

/-- A call that does not start anew leaves a chapter at its end, or comes to it. -/
theorem Placed.of_call {answer : Answer} (he : e.Placed) (hpaced : e.Paced)
    (h : e.call now c = .ok (answer, after)) : after.Placed := by
  by_cases hanew : c.startsAnew
  · have hplaying := playing_of_startsAnew hanew h
    exact ⟨by simp [hplaying], by simp [hplaying]⟩
  · obtain ⟨news, hrespond⟩ := exists_respond h
    have hopens : (Request.call c).opens = false := Bool.eq_false_iff.2 hanew
    rcases hpaced.ends_or_persists hopens hrespond with ⟨-, ending, hends⟩ | hpersists
    · have hnode := hends.node
      rw [hends.final]
      exact ⟨nofun, fun _ => hnode⟩
    · refine ⟨fun hidle => ?_, fun hended => ?_⟩
      · rw [hpersists.stays.stage, hpersists.stays.chapter]
        exact he.idle (hpersists.status ▸ hidle)
      · have hbefore : e.run.status = .ended := hpersists.status ▸ hended
        rw [hpersists.stays.currentNode?_eq (hpersists.node hbefore)]
        exact he.ended hbefore

end Engine

theorem Reachable.placed {s : Story} {e : Engine} (h : Reachable s e) : e.Placed := by
  induction h with
  | fresh settings observers => exact ⟨fun _ => ⟨rfl, rfl⟩, nofun⟩
  | call he h ih => exact ih.of_call he.paced h
  | load he hsaved hsave h _ ihsaved =>
    rename_i e saved _ now savedAt text heard _
    obtain ⟨settled, store, scene, playTime, -, -, rfl⟩ := Engine.of_load_save hsave h
    have hstory : e.story = saved.story := he.story_eq.trans hsaved.story_eq.symm
    have hstatus := Engine.status_resume (p := { saved.run with store, scene, playTime })
      hsaved.paced.idle e now
    constructor
    · intro hidle
      exact ihsaved.idle (hstatus.symm.trans hidle)
    · intro hended
      have hnode := ihsaved.ended (hstatus.symm.trans hended)
      unfold Engine.currentNode? Engine.currentChapter? at hnode ⊢
      rw [← hstory] at hnode
      exact hnode

namespace Engine

variable {e : Engine} {now : Int64} {index : UInt64} {n : Node} {choices : List Choice}

/-! ## What is offered -/

theorem exists_choices (htype : n.type = .choice) : ∃ choices, n.kind = .choice choices := by
  unfold Node.type at htype
  cases hkind : n.kind with
  | choice choices => exact ⟨choices, rfl⟩
  | _ =>
    rw [hkind] at htype
    cases htype

/-- At a choice node its choices are offered, each of them as far as it is unlocked. -/
theorem getElem?_offers (hn : e.currentNode? = some n) (hkind : n.kind = .choice choices)
    (i : Nat) : e.offers[i]? = choices[i]?.map fun c => ⟨i, c, e.unlocked c⟩ := by
  unfold offers
  simp only [hn, Option.map_some, hkind, List.getElem?_map, List.getElem?_zipIdx, Nat.zero_add]
  cases choices[i]? <;> rfl

theorem length_offers (hn : e.currentNode? = some n) (hkind : n.kind = .choice choices) :
    e.offers.length = choices.length := by
  unfold offers
  simp [hn, hkind]

/-- Away from choice nodes nothing is offered and nothing can be chosen. -/
theorem offering_elsewhere (h : ∀ n, e.currentNode? = some n → n.type ≠ .choice) :
    e.Offering now index := by
  have hoffers : e.offers = [] := by
    unfold offers
    split
    · rename_i choices hkind
      obtain ⟨n, hn, hchoices⟩ := Option.map_eq_some_iff.1 hkind
      exact absurd (by rw [Node.type, hchoices]; rfl) (h n hn)
    · rfl
  have hrefused : (e.choose now index).isOk = false := by
    unfold choose
    cases e.hindrance? with
    | some refusal => rfl
    | none =>
      cases hn : e.currentNode? with
      | none => rfl
      | some n =>
        have htype := h n hn
        cases hkind : n.kind with
        | choice choices => exact absurd (by rw [Node.type, hkind]; rfl) htype
        | _ =>
          simp only [hkind]
          rfl
  exact ⟨by simp [hoffers, hrefused], by simp [hoffers], fun ⟨n, hn, htype⟩ => absurd htype (h n hn),
    fun _ => ⟨hoffers, hrefused⟩⟩

/-! ## What is accepted -/

/-- At a choice node nothing but the choice itself matters to an engine that can go on. -/
theorem offering_at_choice (hfree : e.Free) (hn : e.currentNode? = some n)
    (hkind : n.kind = .choice choices) : e.Offering now index := by
  have hoffer := e.getElem?_offers hn hkind index.toNat
  have hlength := e.length_offers hn hkind
  have htype : n.type = .choice := by rw [Node.type, hkind]; rfl
  cases hc : choices[index.toNat]? with
  | none =>
    have hchoose : e.choose now index = .error (.choiceOutOfRange index choices.length) := by
      simp [choose, hindrance?_eq_none.2 hfree, hn, hkind, hc]
    rw [hc] at hoffer
    refine ⟨?_, ?_, fun _ _ => ?_, fun hnone => absurd htype (hnone n hn)⟩
    · simp [hchoose, hoffer, Except.isOk, Except.toBool]
    · simp [hoffer]
    · rw [hchoose, hlength]
  | some c =>
    have hchoose : e.choose now index =
        if e.unlocked c then
          .ok ((c.target?.elim (e.recordChoice now n index c)
            ((e.recordChoice now n index c).goTo now)).settledFrom n.id)
        else .error (.choiceLocked c.id) := by
      simp [choose, hindrance?_eq_none.2 hfree, hn, hkind, hc]
    rw [hc] at hoffer
    have hlt : index.toNat < e.offers.length := by
      rw [hlength]
      exact (List.getElem?_eq_some_iff.1 hc).1
    refine ⟨?_, ?_, fun _ hle => absurd hlt (Nat.not_lt.2 hle),
      fun hnone => absurd htype (hnone n hn)⟩
    · by_cases hunlocked : e.unlocked c <;>
        simp [hchoose, hoffer, hunlocked, Except.isOk, Except.toBool]
    · intro o ho henabled
      obtain rfl := Option.some.inj (hoffer.symm.trans ho)
      have hlocked : e.unlocked c = false := henabled
      simp [hchoose, hlocked]

/-- At a choice node an engine that has been started can go on. -/
theorem Placed.free (h : e.Placed) (hpaced : e.Paced) (hidle : e.run.status ≠ .idle)
    (hn : e.currentNode? = some n) (htype : n.type = .choice) : e.Free := by
  constructor
  · cases hstatus : e.run.status with
    | idle => exact absurd hstatus hidle
    | playing => rfl
    | ended =>
      obtain ⟨n', hn', hend⟩ := h.ended hstatus
      obtain rfl := Option.some.inj (hn.symm.trans hn')
      rw [htype] at hend
      cases hend
  · refine Timers.transitionPending_eq_false.2 fun t ht => ?_
    cases haction : t.action with
    | removeImage serial => rfl
    | showImage node d => rfl
    | moveOn next =>
      obtain ⟨-, n', d, hn', hd, -⟩ := hpaced.heldBack t ht next haction
      obtain rfl := Option.some.inj (hn.symm.trans hn')
      obtain ⟨choices, hkind⟩ := exists_choices htype
      rw [Node.directive?_eq_some, hkind] at hd
      cases hd

end Engine

/-! ## Main result -/

/-- The choices that are offered as unlocked are those that are accepted. One that is locked is
refused as such, one beyond those offered as out of range, and away from choice nodes nothing is
offered or accepted. Before the start that is so if no choice node is found where nothing is named.
-/
theorem Reachable.offers_accepted {s : Story} {e : Engine} (h : Reachable s e) (now : Int64)
    (index : UInt64) :
    ((e.run.status = .idle → ∀ n, s.unnamed? = some n → n.type ≠ .choice) →
      e.Offering now index) ∧
    (e.run.status = .idle → e.currentNode? = s.unnamed? ∧
      e.choose now index = .error .notStarted) := by
  have hunnamed (hidle : e.run.status = .idle) : e.currentNode? = s.unnamed? := by
    obtain ⟨hstage, hchapter⟩ := h.placed.idle hidle
    unfold Engine.currentNode? Engine.currentChapter? Story.unnamed?
    rw [h.story_eq, hstage, hchapter, h.paced.idle hidle]
  constructor
  · intro hnamed
    by_cases hchoice : ∃ n, e.currentNode? = some n ∧ n.type = .choice
    · obtain ⟨n, hn, htype⟩ := hchoice
      have hidle : e.run.status ≠ .idle := fun hidle =>
        hnamed hidle n ((hunnamed hidle).symm.trans hn) htype
      obtain ⟨choices, hkind⟩ := Engine.exists_choices htype
      exact Engine.offering_at_choice (h.placed.free h.paced hidle hn htype) hn hkind
    · exact Engine.offering_elsewhere fun n hn htype => hchoice ⟨n, hn, htype⟩
  · intro hidle
    refine ⟨hunnamed hidle, ?_⟩
    unfold Engine.choose Engine.hindrance?
    rw [hidle]

namespace Gallery

/-- Where the ways part. One of them is open only to those who have tried the other. -/
def fork : Node where
  id := "fork"
  kind := .choice [{ id := "left", text := "To the left" },
    { id := "right", text := "To the right", condition := some (.choiceMade (some "left")) }]

/-- A story with nothing but a choice. -/
def crossing : Story where
  stages := [{ id := "house", chapters := [{ id := "hall", nodes := [fork] }] }]

/-- The choice is still to be made. -/
def parting : Engine := ({ story := crossing } : Engine).after 0 (.start none none)

theorem reachable_parting : Reachable crossing parting :=
  (Reachable.fresh {} 0).after 0 (.start none none)

/-- The left way can be taken, the right one is locked, and there is no third. -/
theorem offers_accepted_parting :
    (parting.choose 5 0).isOk ∧ parting.choose 5 1 = .error (.choiceLocked "right") ∧
      parting.choose 5 2 = .error (.choiceOutOfRange 2 2) := by
  have hnamed : parting.run.status = .idle → ∀ n, crossing.unnamed? = some n → n.type ≠ .choice :=
    fun hidle => absurd hidle (by decide +kernel)
  have hoffering (index : UInt64) : parting.Offering 5 index :=
    (Reachable.offers_accepted reachable_parting 5 index).1 hnamed
  have hoffers : parting.offers = [⟨0, { id := "left", text := "To the left" }, true⟩,
      ⟨1, { id := "right", text := "To the right", condition := some (.choiceMade (some "left")) },
        false⟩] := by decide +kernel
  have hfork : parting.currentNode? = some fork := by decide +kernel
  refine ⟨(hoffering 0).accepted.2 ⟨_, by rw [hoffers]; rfl, rfl⟩,
    (hoffering 1).locked ⟨1, _, false⟩ (by rw [hoffers]; rfl) rfl, ?_⟩
  have hbeyond := (hoffering 2).beyond ⟨fork, hfork, rfl⟩ (by rw [hoffers]; decide)
  rwa [hoffers] at hbeyond

/-- A story with a choice in a chapter and a stage without names. -/
def nameless : Story where
  stages := [{ id := "", chapters := [{ id := "", nodes := [{ fork with id := "" }] }] }]

/-- A story without names offers a choice before it has been started, and refuses to take it. -/
theorem not_offers_accepted :
    ¬ ∀ (s : Story) (e : Engine), Reachable s e → ∀ now index, e.Offering now index := by
  intro h
  have haccepted := (h nameless _ (.fresh {} 0) 0 0).accepted.2 ⟨_, rfl, by decide +kernel⟩
  exact absurd haccepted (by decide +kernel)

end Gallery
end BranchingStory
