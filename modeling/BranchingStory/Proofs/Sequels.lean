import BranchingStory.Proofs.Observers
/-!
# From chapter to chapter

The chapter after another one is found by ids: first its stage, then the chapter in it. Where ids
tell the stages apart, and in each stage its chapters, this is the next chapter of the document,
however many stages without chapters are in between. So going on from the first chapter comes to all
chapters, to each of them once; and a play that follows its `next` endings comes back to none.
-/

namespace BranchingStory

/-- A chapter that is found is one of the stage's, and has the id that was looked for. -/
theorem Stage.mem_of_chapter? {st : Stage} {id : String} {c : Chapter}
    (h : st.chapter? id = some c) : c ∈ st.chapters ∧ c.id = id :=
  ⟨List.mem_of_find?_eq_some h, by simpa using List.find?_some h⟩

namespace Story

/-! ## The chapters in their order -/

/-- The chapters of some stages in the order of the document, each with its stage. -/
def chaptersOf (stages : List Stage) : List (Stage × Chapter) :=
  stages.flatMap fun st => st.chapters.map (st, ·)

/-- The chapters of a story in the order of the document, each with its stage. -/
def chapters (s : Story) : List (Stage × Chapter) := chaptersOf s.stages

/-- The ids by which a chapter is found. -/
def idsOf (found : Stage × Chapter) : String × String := (found.1.id, found.2.id)

/-- Ids tell stages apart, and in each stage its chapters. Chapters of two stages may have the same
id. -/
structure Distinct (s : Story) : Prop where
  stages : (s.stages.map (·.id)).Nodup
  chapters : ∀ st ∈ s.stages, (st.chapters.map (·.id)).Nodup

variable {stages : List Stage} {st : Stage} {c : Chapter}

theorem chaptersOf_cons (st : Stage) (rest : List Stage) :
    chaptersOf (st :: rest) = st.chapters.map (st, ·) ++ chaptersOf rest :=
  List.flatMap_cons

theorem mem_chaptersOf : (st, c) ∈ chaptersOf stages ↔ st ∈ stages ∧ c ∈ st.chapters := by
  simp [chaptersOf]

/-- The first chapter of the first stage that has any is the first one of all. -/
theorem firstChapter?_eq (stages : List Stage) :
    firstChapter? stages = (chaptersOf stages).head? := by
  induction stages with
  | nil => rfl
  | cons st rest ih =>
    rw [chaptersOf_cons, firstChapter?]
    cases st.chapters with
    | nil => exact ih
    | cons c others => rfl

theorem nodup_idsOf_chaptersOf (hstages : (stages.map (·.id)).Nodup)
    (hchapters : ∀ st ∈ stages, (st.chapters.map (·.id)).Nodup) :
    ((chaptersOf stages).map idsOf).Nodup := by
  induction stages with
  | nil => exact List.nodup_nil
  | cons st rest ih =>
    obtain ⟨hst, hrest⟩ := List.nodup_cons.1 hstages
    rw [chaptersOf_cons, List.map_append, List.map_map]
    refine List.nodup_append.2 ⟨?inside, ih hrest fun st h => hchapters st (.tail _ h), ?apart⟩
    case inside =>
      have hids : st.chapters.map (idsOf ∘ (st, ·)) =
          (st.chapters.map (·.id)).map (st.id, ·) := by
        rw [List.map_map]
        rfl
      rw [hids]
      exact (hchapters st (.head _)).map fun _ _ h => (Prod.mk.inj h).2
    case apart =>
      rintro _ hmem _ hlater rfl
      obtain ⟨c, -, rfl⟩ := List.mem_map.1 hmem
      obtain ⟨⟨other, inside⟩, hother, heq⟩ := List.mem_map.1 hlater
      have hid : other.id = st.id := (Prod.mk.inj heq).1
      exact hst (List.mem_map.2 ⟨other, (mem_chaptersOf.1 hother).1, hid⟩)

/-! ## The chapter after another one -/

theorem chaptersAfter?_of_split {before after : List Chapter}
    (h : ((before ++ c :: after).map (·.id)).Nodup) :
    chaptersAfter? c.id (before ++ c :: after) = some after := by
  induction before with
  | nil => simp [chaptersAfter?]
  | cons b before ih =>
    obtain ⟨hb, hrest⟩ := List.nodup_cons.1 h
    have hne : b.id ≠ c.id := fun heq => hb (by simp [heq])
    rw [List.cons_append, chaptersAfter?, if_neg hne, ih hrest]

/-- Nothing comes after a chapter that is not there. -/
theorem chaptersAfter?_of_unknown {id : String} {l : List Chapter}
    (h : l.find? (·.id = id) = none) : chaptersAfter? id l = none := by
  induction l with
  | nil => rfl
  | cons c rest ih =>
    by_cases hc : c.id = id
    · simp [hc] at h
    · rw [chaptersAfter?, if_neg hc]
      exact ih (by simpa [hc] using h)

theorem chapterAfterIn?_of_unknown {stage chapter : String}
    (h : (stages.find? (·.id = stage)).bind (·.chapter? chapter) = none) :
    chapterAfterIn? stage chapter stages = none := by
  induction stages with
  | nil => rfl
  | cons st rest ih =>
    rw [chapterAfterIn?]
    by_cases hst : st.id = stage
    · have hunknown : st.chapters.find? (·.id = chapter) = none := by
        simpa [hst, Stage.chapter?] using h
      rw [if_pos hst, chaptersAfter?_of_unknown hunknown]
    · rw [if_neg hst]
      exact ih (by simpa [hst] using h)

/-- Wherever the list of chapters is cut, the chapter after the one before the cut is the one after
it. -/
theorem chapterAfterIn?_of_split {before after : List (Stage × Chapter)}
    (hstages : (stages.map (·.id)).Nodup)
    (hchapters : ∀ st ∈ stages, (st.chapters.map (·.id)).Nodup)
    (h : chaptersOf stages = before ++ (st, c) :: after) :
    chapterAfterIn? st.id c.id stages = after.head? := by
  induction stages generalizing before with
  | nil => simp [chaptersOf] at h
  | cons first rest ih =>
    obtain ⟨hfirst, hrest⟩ := List.nodup_cons.1 hstages
    have hinside := hchapters first (.head _)
    rw [chaptersOf_cons] at h
    have hcases : (∃ before', chaptersOf rest = before' ++ (st, c) :: after) ∨
        ∃ after', first.chapters.map (first, ·) = before ++ (st, c) :: after' ∧
          after = after' ++ chaptersOf rest := by
      rcases List.append_eq_append_iff.1 h with ⟨later, -, hlater⟩ | ⟨cut, hcut, hafter⟩
      · exact .inl ⟨later, hlater⟩
      · cases cut with
        | nil => exact .inl ⟨[], hafter.symm⟩
        | cons _ after' =>
          obtain ⟨rfl, rfl⟩ := List.cons.inj hafter
          exact .inr ⟨after', hcut, rfl⟩
    rw [chapterAfterIn?]
    rcases hcases with ⟨before', hlater⟩ | ⟨after', hcut, rfl⟩
    · have hmem : st ∈ rest := (mem_chaptersOf.1 (hlater ▸ List.mem_append_right _ (.head _))).1
      have hne : first.id ≠ st.id := fun heq => hfirst (List.mem_map.2 ⟨st, hmem, heq.symm⟩)
      rw [if_neg hne]
      exact ih hrest (fun st h => hchapters st (.tail _ h)) hlater
    · obtain ⟨earlier, others, hsplit, -, htail⟩ := List.map_eq_append_iff.1 hcut
      obtain ⟨c', later, rfl, hpair, rfl⟩ := List.map_eq_cons_iff.1 htail
      obtain ⟨rfl, rfl⟩ := Prod.mk.inj hpair
      rw [hsplit] at hinside ⊢
      rw [if_pos rfl, chaptersAfter?_of_split hinside]
      cases later with
      | nil => exact firstChapter?_eq rest
      | cons next later => rfl

namespace Distinct

variable {s : Story}

theorem nodup_chapters (h : s.Distinct) : (s.chapters.map idsOf).Nodup :=
  nodup_idsOf_chaptersOf h.stages h.chapters

/-- The chapter after the one at some place is the one at the next place. -/
theorem chapterAfter?_getElem? (h : s.Distinct) {k : Nat} (hk : s.chapters[k]? = some (st, c)) :
    s.chapterAfter? st.id c.id = s.chapters[k + 1]? := by
  obtain ⟨hlt, hget⟩ := List.getElem?_eq_some_iff.1 hk
  have hsplit : s.chapters = s.chapters.take k ++ (st, c) :: s.chapters.drop (k + 1) := by
    rw [← hget, ← List.drop_eq_getElem_cons hlt, List.take_append_drop]
  rw [← List.head?_drop]
  exact chapterAfterIn?_of_split h.stages h.chapters hsplit

end Distinct

/-! ## Going on from the first chapter -/

/-- The chapter that going on so many times from the first one comes to. -/
def chapterAt? (s : Story) : Nat → Option (Stage × Chapter)
  | 0 => firstChapter? s.stages
  | k + 1 => (s.chapterAt? k).bind fun found => s.chapterAfter? found.1.id found.2.id

theorem Distinct.chapterAt?_eq {s : Story} (h : s.Distinct) (k : Nat) :
    s.chapterAt? k = s.chapters[k]? := by
  induction k with
  | zero => exact (firstChapter?_eq s.stages).trans List.head?_eq_getElem?
  | succ k ih =>
    rw [chapterAt?, ih]
    cases hk : s.chapters[k]? with
    | none =>
      have hend := List.getElem?_eq_none_iff.1 hk
      exact (List.getElem?_eq_none (Nat.le_succ_of_le hend)).symm
    | some found => exact h.chapterAfter?_getElem? hk

/-! ## Where `next` endings lead -/

/-- A stage that is found is one of the story's, and has the id that was looked for. -/
theorem mem_of_stage? {s : Story} {id : String} (h : s.stage? id = some st) :
    st ∈ s.stages ∧ st.id = id :=
  ⟨List.mem_of_find?_eq_some h, by simpa using List.find?_some h⟩

/-- A chapter that is found by its ids is one of the story's. -/
theorem exists_of_chapter? {s : Story} {stage chapter : String}
    (h : s.chapter? stage chapter = some c) :
    ∃ st, (st, c) ∈ s.chapters ∧ idsOf (st, c) = (stage, chapter) := by
  obtain ⟨st, hst, hc⟩ := Option.bind_eq_some_iff.1 h
  obtain ⟨hstages, rfl⟩ := mem_of_stage? hst
  obtain ⟨hchapters, rfl⟩ := Stage.mem_of_chapter? hc
  exact ⟨st, mem_chaptersOf.2 ⟨hstages, hchapters⟩, rfl⟩

theorem Distinct.idxOf_idsOf {s : Story} (h : s.Distinct) {k : Nat} {found : Stage × Chapter}
    (hk : s.chapters[k]? = some found) : (s.chapters.map idsOf).idxOf (idsOf found) = k := by
  have hids : (s.chapters.map idsOf)[k]? = some (idsOf found) := by simp [hk]
  obtain ⟨hlt, hget⟩ := List.getElem?_eq_some_iff.1 hids
  rw [← hget]
  exact h.nodup_chapters.idxOf_getElem k hlt

/-- Another chapter comes only after one that is there, and it is further on. -/
theorem Distinct.idxOf_lt {s : Story} (h : s.Distinct) {stage chapter : String}
    {next : Stage × Chapter} (hnext : s.chapterAfter? stage chapter = some next) :
    (s.chapters.map idsOf).idxOf (stage, chapter) <
      (s.chapters.map idsOf).idxOf (idsOf next) := by
  have hknown : s.chapter? stage chapter ≠ none := fun hnone => by
    rw [chapterAfter?, chapterAfterIn?_of_unknown hnone] at hnext
    cases hnext
  obtain ⟨c, hc⟩ := Option.ne_none_iff_exists'.1 hknown
  obtain ⟨st, hmem, hids⟩ := exists_of_chapter? hc
  obtain ⟨k, hk⟩ := List.mem_iff_getElem?.1 hmem
  obtain ⟨rfl, rfl⟩ := Prod.mk.inj hids
  rw [h.chapterAfter?_getElem? hk] at hnext
  rw [h.idxOf_idsOf hnext]
  exact (h.idxOf_idsOf hk).trans_lt (Nat.lt_succ_self k)

/-- A `next` ending leads to the chapter after its own, if there is one. -/
theorem target?_of_next {s : Story} {stage chapter : String} {n : Node}
    (h : (s.ending stage chapter n).action = .next) :
    (s.ending stage chapter n).target? = (s.chapterAfter? stage chapter).map idsOf := by
  have haction : n.chapterEnd.action = .next := h
  unfold ending following Ending.target?
  simp only [haction]
  cases s.chapterAfter? stage chapter <;> rfl

/-- What is found by the ids of a stage and of a chapter has these ids. -/
theorem idsOf_of_resolve {s : Story} {stage chapter : String} {found : Stage × Chapter}
    (h : s.resolve (some stage) (some chapter) = .ok found) : idsOf found = (stage, chapter) := by
  unfold resolve at h
  cases hst : s.stage? stage with
  | none => simp [hst, bind, Except.bind] at h
  | some st =>
    cases hc : st.chapter? chapter with
    | none => simp [hst, hc, bind, Except.bind] at h
    | some c =>
      have hfound : (st, c) = found := by
        simpa [hst, hc, bind, Except.bind, pure, Except.pure] using h
      rw [← hfound, idsOf, (mem_of_stage? hst).2, (Stage.mem_of_chapter? hc).2]

end Story

/-! ## Following `next` endings -/

namespace Engine

/-- The ids of the stage and the chapter that are played. -/
def place (e : Engine) : String × String := (e.run.stage, e.run.chapter)

theorem Stays.place_eq {a b : Engine} (h : a.Stays b) : b.place = a.place :=
  congrArg₂ Prod.mk h.stage h.chapter

end Engine

theorem Follows.stays {now : Int64} {a b : Moment} (h : Follows now a b) :
    a.engine.Stays b.engine := by
  rcases h with hentered | hfired
  · cases hentered with
    | @mk chapter id n =>
      obtain ⟨store, backlog, scene, timers, imageCounter, hframe⟩ :=
        (a.engine.atNode id).enter_frame now n
      rw [hframe]
      exact ⟨rfl, rfl, rfl, rfl⟩
  · cases hfired <;> exact ⟨rfl, rfl, rfl, rfl⟩

namespace Engine

variable {e e' : Engine} {now : Int64}

/-- A call that does not start anything anew stays in the chapter. -/
theorem stays_of_call {c : Call} {answer : Answer} (hc : c.startsAnew = false)
    (h : e.call now c = .ok (answer, e')) : e.Stays e' := by
  obtain ⟨course, hcourse, rfl⟩ := course_of_call h
  have hopening : e.Stays course.opening.engine := by
    have hopens := (course_opens hcourse).1
    generalize course.opening = a at hopens
    cases hopens with
    | anew c hc' => rcases hc' with rfl | ⟨stage, chapter, rfl⟩ <;> cases hc
    | movedInto => cases hc
    | _ => exact ⟨rfl, rfl, rfl, rfl⟩
  obtain ⟨m, hm, hfinal⟩ := course.exists_final
  rw [← hfinal]
  exact course_keeps (I := fun m => e.Stays m.engine) hcourse hopening
    (fun _ _ hfollows ha => ha.trans hfollows.stays) m hm

theorem place_beginning (e : Engine) (now : Int64) (chapter : Chapter) :
    (e.beginning now chapter).final.place = e.place := by
  rw [final_beginning]
  exact (stays_beginChapter ..).place_eq

/-- Starting a chapter comes to the chapter that was asked for. -/
theorem place_of_startChapter {stage chapter : String} {answer : Answer}
    (h : e.call now (.startChapter stage chapter) = .ok (answer, e')) :
    e'.place = (stage, chapter) := by
  obtain ⟨course, hcourse, rfl⟩ := course_of_call h
  change e.movingOn now stage chapter = .ok course at hcourse
  unfold movingOn at hcourse
  split at hcourse
  · cases hcourse
  · cases hfound : e.story.resolve (some stage) (some chapter) with
    | error what => simp [hfound] at hcourse
    | ok found =>
      simp only [hfound, Except.ok.injEq] at hcourse
      rw [← hcourse, place_beginning, ← Story.idsOf_of_resolve hfound]
      rfl

/-- A restart comes to the same chapter. -/
theorem place_of_restart {answer : Answer} (h : e.call now .restart = .ok (answer, e')) :
    e'.place = e.place := by
  obtain ⟨course, hcourse, rfl⟩ := course_of_call h
  change e.restarting now = .ok course at hcourse
  unfold restarting starting at hcourse
  split at hcourse
  · cases hcourse
  · cases hfound : e.story.resolve (some e.run.stage) (some e.run.chapter) with
    | error what => simp [hfound] at hcourse
    | ok found =>
      simp only [hfound, Except.ok.injEq] at hcourse
      rw [← hcourse, place_beginning]
      exact Story.idsOf_of_resolve hfound

end Engine

/-- A play that follows `next` endings: the chapters it has come to, in their order, and the engine
after it. It begins with any engine. In a chapter it may go on, choose, let timers fire and restart;
from a `next` ending it goes on into the chapter to which this ending leads. -/
inductive Onward (s : Story) : List (String × String) → Engine → Prop
  | begun {e : Engine} (h : Reachable s e) : Onward s [e.place] e
  | stayed {visited : List (String × String)} {e e' : Engine} {now : Int64} {c : Call}
      {answer : Answer} (h : Onward s visited e) (hc : c = .restart ∨ c.startsAnew = false)
      (hcall : e.call now c = .ok (answer, e')) : Onward s visited e'
  | followed {visited : List (String × String)} {e e' : Engine} {now : Int64} {ending : Ending}
      {stage chapter : String} {answer : Answer} (h : Onward s visited e)
      (hending : e.ending? = some ending) (haction : ending.action = .next)
      (htarget : ending.target? = some (stage, chapter))
      (hcall : e.call now (.startChapter stage chapter) = .ok (answer, e')) :
    Onward s (visited ++ [e'.place]) e'

namespace Onward

variable {s : Story} {visited : List (String × String)} {e : Engine}

theorem reachable (h : Onward s visited e) : Reachable s e := by
  induction h with
  | begun h => exact h
  | stayed _ _ hcall ih => exact .call ih hcall
  | followed _ _ _ _ hcall ih => exact .call ih hcall

/-- The engine is in the chapter that was come to last. -/
theorem getLast?_eq (h : Onward s visited e) : visited.getLast? = some e.place := by
  induction h with
  | begun => rfl
  | stayed _ hc hcall ih =>
    rcases hc with rfl | hstays
    · rw [ih, Engine.place_of_restart hcall]
    · rw [ih, (Engine.stays_of_call hstays hcall).place_eq]
  | followed => exact List.getLast?_concat

/-- Every chapter is further on than the one before it. -/
theorem isChain_idxOf (h : Onward s visited e) (hdistinct : s.Distinct) :
    visited.IsChain fun a b =>
      (s.chapters.map Story.idsOf).idxOf a < (s.chapters.map Story.idsOf).idxOf b := by
  induction h with
  | begun => exact .singleton _
  | stayed _ _ _ ih => exact ih
  | @followed visited e e' now ending stage chapter answer h hending haction htarget hcall ih =>
    refine List.isChain_append.2 ⟨ih, .singleton _, ?_⟩
    rw [h.getLast?_eq]
    rintro a ⟨⟩ b ⟨⟩
    rw [Engine.place_of_startChapter hcall]
    obtain ⟨n, -, rfl⟩ := Option.map_eq_some_iff.1 hending
    unfold Engine.endingAt at haction htarget
    rw [Story.target?_of_next haction, h.reachable.story_eq] at htarget
    obtain ⟨next, hnext, hids⟩ := Option.map_eq_some_iff.1 htarget
    rw [← hids]
    exact hdistinct.idxOf_lt hnext

end Onward

/-! ## Main result -/

/-- Where ids tell stages apart, and in each stage its chapters, going on from the first chapter of
the first stage that has any comes to all chapters of the story in the order of the document, to
each of them once, and then to none. After a chapter that is not there comes none. So a play that
follows `next` endings never comes back to a chapter. -/
theorem Story.Distinct.goes_through_chapters {s : Story} (h : s.Distinct) :
    (∀ k, s.chapterAt? k = s.chapters[k]?) ∧
    (s.chapters.map Story.idsOf).Nodup ∧
    (∀ stage chapter, s.chapter? stage chapter = none → s.chapterAfter? stage chapter = none) ∧
    ∀ visited e, Onward s visited e → visited.Nodup := by
  refine ⟨h.chapterAt?_eq, h.nodup_chapters, fun stage chapter hunknown =>
    chapterAfterIn?_of_unknown hunknown, fun visited e honward => ?_⟩
  have hascends := (List.isChain_map (s.chapters.map idsOf).idxOf).2 (honward.isChain_idxOf h)
  have hpairs := List.isChain_iff_pairwise.1 hascends
  exact List.Nodup.of_map _ (hpairs.imp Nat.ne_of_lt)

namespace Gallery

/-- A room that leads to the next one. -/
def room (id : String) : Chapter := { id, nodes := [{ id := "door", kind := .chapterEnd none }] }

/-- A house and its annex, which both have a hall. The other stages have no chapters. -/
def wings : Story where
  stages := [{ id := "attic" }, { id := "house", chapters := [room "hall", room "cellar"] },
    { id := "yard" }, { id := "barn" }, { id := "annex", chapters := [room "hall"] },
    { id := "roof" }]

/-- The play begins in the hall of the house, and goes on through the cellar into the annex. -/
def inHall : Engine := ({ story := wings } : Engine).after 0 (.start (some "house") none)

def inCellar : Engine := inHall.after 10 (.startChapter "house" "cellar")

def inAnnex : Engine := inCellar.after 20 (.startChapter "annex" "hall")

/-- The third chapter of all is in the annex, and none comes after it. A play that follows the doors
comes to each of the three. -/
theorem goes_through_wings :
    wings.Distinct ∧ (wings.chapterAt? 2).map Story.idsOf = some ("annex", "hall") ∧
      wings.chapterAt? 3 = none ∧ wings.chapterAfter? "annex" "cellar" = none ∧
      Onward wings [("house", "hall"), ("house", "cellar"), ("annex", "hall")] inAnnex ∧
      [("house", "hall"), ("house", "cellar"), ("annex", "hall")].Nodup := by
  have hdistinct : wings.Distinct := ⟨by decide, by decide⟩
  obtain ⟨hat, -, hunknown, hnodup⟩ := Story.Distinct.goes_through_chapters hdistinct
  have hhall : Onward wings [("house", "hall")] inHall :=
    .begun ((Reachable.fresh {} 0).after 0 (.start (some "house") none))
  have hcellar : Onward wings [("house", "hall"), ("house", "cellar")] inCellar := by
    have hcall : inHall.call 10 (.startChapter "house" "cellar") = .ok (.done, inCellar) := rfl
    exact .followed hhall rfl rfl rfl hcall
  have hannex :
      Onward wings [("house", "hall"), ("house", "cellar"), ("annex", "hall")] inAnnex := by
    have hcall : inCellar.call 20 (.startChapter "annex" "hall") = .ok (.done, inAnnex) := rfl
    exact .followed hcellar rfl rfl rfl hcall
  refine ⟨hdistinct, ?_, hat 3, hunknown _ _ (by decide), hannex, hnodup _ _ hannex⟩
  rw [hat 2]
  rfl

end Gallery
end BranchingStory
