import BranchingStory.Proofs.Restarting
import BranchingStory.Proofs.Settling
/-!
# Images that go along into the next chapter

The end of a chapter may ask for the images to stay. Those that are on stage then go along, except
for those on their way out. But the timers of the chapter are void, and with them the images that
were still to come.
-/

namespace BranchingStory

/-- The image without its serial number. -/
def StageImage.unnumbered (i : StageImage) : StageImage := { i with serial := 0 }

namespace Deferred

/-- The image that a timer brings, under no serial number yet. -/
def incoming? : Deferred → Option StageImage
  | .showImage node d => some (.ofDirective node 0 d)
  | _ => none

theorem incoming?_eq_none {action : Deferred} :
    action.incoming? = none ↔ action.brings = false := by
  cases action <;> simp [incoming?, brings]

end Deferred

/-! ## What timers leave on stage -/

namespace Scene

/-- The images that are not on their way out, without their serial numbers. -/
def staying (s : Scene) : List StageImage := s.dropExiting.images.map (·.unnumbered)

/-- Timers that may fire on a scene in their order: what they take away is on its way out, and they
fill slots that are empty but for that, each of them one of its own. -/
structure Awaits (s : Scene) (counter : UInt64) (actions : List Deferred) : Prop where
  removal : ∀ serial, .removeImage serial ∈ actions →
    serial ≤ counter ∧ ∀ i ∈ s.images, i.serial = serial → i.exiting
  filledOnce : actions.Pairwise fun a b => ∀ slot, a.fills slot → ¬ b.fills slot
  vacated : ∀ action ∈ actions, ∀ slot, action.fills slot →
    ∀ i ∈ s.images, i.slot = slot → i.exiting

namespace Awaits

variable {s : Scene} {counter serial : UInt64} {rest : List Deferred} {node : String}
  {d : ImageDirective}

/-- Taking away what is on its way out does not matter to what stays. -/
theorem staying_remove (h : s.Awaits counter (.removeImage serial :: rest)) :
    (s.remove serial).staying = s.staying := by
  unfold staying dropExiting remove keep
  dsimp only
  rw [List.filter_filter]
  refine congrArg (List.map _) (List.filter_congr fun i hi => ?_)
  have hexiting := (h.removal serial (.head _)).2 i hi
  by_cases hserial : i.serial = serial
  · simp [hexiting hserial]
  · simp [hserial]

theorem remove (h : s.Awaits counter (.removeImage serial :: rest)) :
    (s.remove serial).Awaits counter rest where
  removal serial' hmem := by
    obtain ⟨hle, hexiting⟩ := h.removal serial' (.tail _ hmem)
    exact ⟨hle, fun i hi => hexiting i (List.mem_of_mem_filter hi)⟩
  filledOnce := (List.pairwise_cons.1 h.filledOnce).2
  vacated action hmem slot hfills i hi :=
    h.vacated action (.tail _ hmem) slot hfills i (List.mem_of_mem_filter hi)

/-- In a slot that is free an image is placed after all others. -/
theorem images_place (h : s.Awaits counter (.showImage node d :: rest)) (serial : UInt64) :
    (s.place (.ofDirective node serial d)).images = s.images ++ [.ofDirective node serial d] := by
  refine congrArg (· ++ [_]) (List.filter_eq_self.2 fun i hi => ?_)
  by_cases hslot : i.slot = d.picture.slot
  · have hfills : (Deferred.showImage node d).fills d.picture.slot := by simp [Deferred.fills]
    simp [h.vacated _ (.head _) _ hfills i hi hslot]
  · have hother : i.slot ≠ (StageImage.ofDirective node serial d).slot := hslot
    simp [hother]

theorem staying_place (h : s.Awaits counter (.showImage node d :: rest)) (serial : UInt64) :
    (s.place (.ofDirective node serial d)).staying = s.staying ++ [.ofDirective node 0 d] := by
  unfold staying dropExiting keep
  rw [h.images_place serial, List.filter_append, List.map_append]
  rfl

theorem place (h : s.Awaits counter (.showImage node d :: rest)) (hroom : counter < counter + 1) :
    (s.place (.ofDirective node (counter + 1) d)).Awaits (counter + 1) rest where
  removal serial hmem := by
    obtain ⟨hle, hexiting⟩ := h.removal serial (.tail _ hmem)
    have hlt := UInt64.lt_of_le_of_lt hle hroom
    refine ⟨UInt64.le_of_lt hlt, fun i hi hserial => ?_⟩
    rw [h.images_place] at hi
    rcases List.mem_append.1 hi with hi | hi
    · exact hexiting i hi hserial
    · obtain rfl := List.mem_singleton.1 hi
      exact absurd hserial (UInt64.ne_of_lt hlt).symm
  filledOnce := (List.pairwise_cons.1 h.filledOnce).2
  vacated action hmem slot hfills i hi hslot := by
    rw [h.images_place] at hi
    rcases List.mem_append.1 hi with hi | hi
    · exact h.vacated action (.tail _ hmem) slot hfills i hi hslot
    · obtain rfl := List.mem_singleton.1 hi
      have hown : (Deferred.showImage node d).fills slot := by
        simpa [Deferred.fills, StageImage.slot, StageImage.ofDirective] using hslot
      exact absurd hfills ((List.pairwise_cons.1 h.filledOnce).1 action hmem slot hown)

/-- What stays after timers have fired are the images that stayed before, and then those that the
timers bring, in their order. -/
theorem staying_afterTimers {actions : List Deferred} {settled : Scene × UInt64}
    (h : s.Awaits counter actions)
    (hsettled : actions.foldlM afterTimer (s, counter) = .ok settled) :
    settled.1.staying = s.staying ++ actions.filterMap (·.incoming?) := by
  induction actions generalizing s counter with
  | nil =>
    cases hsettled
    simp
  | cons action rest ih =>
    obtain ⟨next, hnext, hrest⟩ := foldlM_cons_eq_ok.1 hsettled
    cases action with
    | removeImage serial =>
      cases hnext
      exact (ih h.remove hrest).trans (congrArg (· ++ _) h.staying_remove)
    | showImage node d =>
      obtain ⟨hroom, rfl⟩ := afterTimer_showImage.1 hnext
      refine (ih (h.place hroom) hrest).trans ?_
      rw [h.staying_place, List.append_assoc]
      rfl
    | moveOn id =>
      cases hnext
      refine ih ⟨?_, ?_, ?_⟩ hrest
      · exact fun serial hmem => h.removal serial (.tail _ hmem)
      · exact (List.pairwise_cons.1 h.filledOnce).2
      · exact fun action hmem => h.vacated action (.tail _ hmem)

end Awaits

end Scene

namespace Engine

variable {e : Engine}

/-- The live timers may fire in their order. -/
theorem Staged.awaits {late : Timer → Prop} (h : e.Staged late) :
    e.run.scene.Awaits e.imageCounter e.timers.pending := by
  have hmem {action : Deferred} (haction : action ∈ e.timers.pending) :
      ∃ t ∈ e.timers.timers, t.action = action := by
    obtain ⟨t, ht, rfl⟩ := List.mem_map.1 haction
    rw [List.mem_mergeSort, h.timers.live_eq] at ht
    exact ⟨t, ht, rfl⟩
  refine ⟨?removal, ?filledOnce, ?vacated⟩
  case removal =>
    intro serial hserial
    obtain ⟨t, ht, haction⟩ := hmem hserial
    exact h.removal t ht serial haction
  case filledOnce =>
    refine List.pairwise_map.2 ?_
    refine (List.Perm.pairwise_iff ?_ (List.mergeSort_perm e.timers.live _)).2 ?_
    · exact fun hab slot hb ha => hab slot ha hb
    · rw [h.timers.live_eq]
      exact h.filledOnce
  case vacated =>
    intro action haction slot hfills
    obtain ⟨t, ht, rfl⟩ := hmem haction
    exact h.vacated t ht slot hfills

/-- Once all timers have fired, the images on stage are those that stayed before and those that were
still to come. -/
theorem Staged.images_poll {late : Timer → Prop} (h : e.Staged late) (hroom : e.CanSettle)
    {now : Int64} (hdue : ∀ t ∈ e.timers.live, t.due ≤ now)
    (hstill : ∀ t ∈ e.timers.live, t.action.isTransition = false) :
    (e.poll now).engine.run.scene.images.map (·.unnumbered) =
      e.run.scene.staying ++ e.timers.pending.filterMap (·.incoming?) := by
  obtain ⟨settled, hpoll, -, hsettled⟩ := h.settledScene_poll hroom hdue hstill
  rw [hpoll, ← h.awaits.staying_afterTimers hsettled, Scene.staying,
    h.dropExiting_settled hsettled]
  rfl

/-! ## Going on into another chapter -/

/-- Where nothing is directed, entering a node leaves the images alone. -/
theorem scene_enter (e : Engine) (now : Int64) {n : Node} (h : n.directive? = none) :
    (e.enter now n).1.run.scene = e.run.scene := by
  have hentered := enters e now n
  generalize e.enter now n = after at hentered
  cases hentered with
  | plain => rfl
  | image d hd => simp [h] at hd
  | wait d hd => simp [h] at hd

theorem scene_through {now : Int64} {a : Moment} {later : List Moment}
    (hchain : (a :: later).IsChain (Enters now))
    (hnone : ∀ n ∈ later.filterMap (·.entered), n.directive? = none) :
    (a.engine.through later).run.scene = a.engine.run.scene := by
  induction later generalizing a with
  | nil => rfl
  | cons b rest ih =>
    obtain ⟨hab, hrest⟩ := List.isChain_cons_cons.1 hchain
    cases hab with
    | mk hchapter honward hnode =>
      rename_i chapter id n
      obtain ⟨hn, hlater⟩ : n.directive? = none ∧
          ∀ n ∈ rest.filterMap (·.entered), n.directive? = none := by simpa using hnone
      exact (ih hrest hlater).trans (scene_enter _ now hn)

/-- An end that asks for the images to stay has those go along that are not on their way out. -/
theorem scene_movedInto {n : Node} {ending : ChapterEnd} (hn : e.currentNode? = some n)
    (hend : n.kind = .chapterEnd (some ending)) (hkeep : ending.clearVisuals = some false)
    (stage : Stage) (chapter : Chapter) :
    (e.movedInto stage chapter).run.scene = e.run.scene.dropExiting := by
  have htype : n.type = .chapterEnd := by
    unfold Node.type
    rw [hend]
    rfl
  have hending : e.ending? = some (e.endingAt n) := by
    unfold ending?
    rw [hn, Option.filter_some, if_pos (decide_eq_true htype)]
    rfl
  have hclear : (e.endingAt n).clearVisuals = false := by
    unfold endingAt Story.ending Node.chapterEnd
    simp [hend, hkeep]
  unfold movedInto
  simp [hending, hclear]

/-- A chapter that is there can be gone into, once the story has been started. -/
theorem exists_movingOn {stage chapter : String} (hidle : e.run.status ≠ .idle)
    (hchapter : (e.story.chapter? stage chapter).isSome) (now : Int64) :
    ∃ course, e.course now (.startChapter stage chapter) = .ok course := by
  obtain ⟨found, hfound⟩ := Story.resolve_of_chapter? hchapter
  refine ⟨(e.movedInto found.1 found.2).beginning now found.2, ?_⟩
  change e.movingOn now stage chapter = _
  rw [movingOn, if_neg hidle, hfound]

end Engine

/-! ## Main result -/

/-- At the end of a chapter that asks for the images to stay, a story can go on into every chapter
that is there. If the beginning of that one directs no images, those go along that are on stage and
not on their way out, which is all that was about to be there just if no image was still to come. -/
theorem Run.images_go_along {s : Story} {log : List Node} {e : Engine} (h : Run s log e)
    (hroom : e.CanSettle) (hidle : e.run.status ≠ .idle) {n : Node} {ending : ChapterEnd}
    (hn : e.currentNode? = some n) (hend : n.kind = .chapterEnd (some ending))
    (hkeep : ending.clearVisuals = some false) {stage chapter : String}
    (hchapter : (s.chapter? stage chapter).isSome) (now : Int64) {later : Int64}
    (hdue : ∀ t ∈ e.timers.live, t.due ≤ later) :
    ∃ course, e.course now (.startChapter stage chapter) = .ok course ∧
      ((∀ m ∈ course.entered, m.directive? = none) →
        (e.poll later).engine.run.scene.images.map (·.unnumbered) =
          course.final.run.scene.images.map (·.unnumbered)
            ++ e.timers.pending.filterMap (·.incoming?) ∧
        ((e.poll later).engine.run.scene.images.map (·.unnumbered) =
            course.final.run.scene.images.map (·.unnumbered) ↔
          ∀ t ∈ e.timers.live, t.action.brings = false)) := by
  rw [← h.reachable.story_eq] at hchapter
  obtain ⟨course, hcourse⟩ := Engine.exists_movingOn hidle hchapter now
  refine ⟨course, hcourse, fun hnone => ?_⟩
  have hstill : ∀ t ∈ e.timers.live, t.action.isTransition = false := by
    intro t ht
    cases haction : t.action with
    | removeImage serial => rfl
    | showImage node d => rfl
    | moveOn next =>
      obtain ⟨-, n', d, hn', hd, -⟩ := h.reachable.paced.heldBack t ht next haction
      obtain rfl := Option.some.inj (hn.symm.trans hn')
      rw [Node.directive?_eq_some, hend] at hd
      cases hd
  have hfinal : course.final.run.scene = e.run.scene.dropExiting := by
    obtain ⟨hopens, hchain⟩ := Engine.movingOn_opens hcourse
    refine (Engine.scene_through hchain hnone).trans ?_
    generalize course.opening = opening at hopens
    cases hopens with
    | anew _ hc => simp at hc
    | movedInto _ _ _ st ch => exact Engine.scene_movedInto hn hend hkeep st ch
  have hsettled := h.staged.images_poll hroom hdue hstill
  have hcoming : e.timers.pending.filterMap (·.incoming?) = [] ↔
      ∀ t ∈ e.timers.live, t.action.brings = false := by
    simp [Timers.pending, List.filterMap_eq_nil_iff, Deferred.incoming?_eq_none]
  rw [hsettled, hfinal]
  refine ⟨rfl, ?_⟩
  rw [← hcoming]
  exact List.append_right_eq_self

namespace Gallery

/-- The way out. The pictures are to be seen from the garden too. -/
def exit : Node := { id := "exit", kind := .chapterEnd (some { clearVisuals := some false }) }

def bench : Node := { id := "bench", text := some "A fine view.", kind := .dialogue }

def garden : Chapter := { id := "garden", nodes := [bench] }

/-- The hall has a way out into the garden. -/
def house : Stage where
  id := "house"
  chapters := [{ id := "hall", nodes := [door, dawn, { dusk with next := some "exit" }, exit] },
    garden]

/-- At the way out the first picture is on its way out, and the second one is still to come. -/
def departing : Engine :=
  (({ story := { stages := [house] } } : Engine).after 0 (.start none none)).after 300 .poll

theorem run_departing :
    Run { stages := [house] } [door, dawn, { dusk with next := some "exit" }, exit] departing := by
  have hopening := (Run.fresh {} 0).after (by decide +kernel :
    Engine.proceeds { story := { stages := [house] } } 0 (.start none none) [door, dawn])
  exact hopening.after (by decide +kernel :
    Engine.proceeds _ 300 .poll [{ dusk with next := some "exit" }, exit])

/-- The story goes on in the garden. -/
theorem course_departing : departing.course 300 (.startChapter "house" "garden") =
    .ok ((departing.movedInto house garden).beginning 300 garden) := by
  have hidle : departing.run.status ≠ .idle := by decide +kernel
  have hfound : departing.story.resolve (some "house") (some "garden") = .ok (house, garden) := by
    decide +kernel
  change departing.movingOn 300 "house" "garden" = _
  rw [Engine.movingOn, if_neg hidle, hfound]

/-- Gone into the garden, the story shows no picture. The second one was still to come. -/
theorem images_go_along_departing :
    ∃ course, departing.course 300 (.startChapter "house" "garden") = .ok course ∧
      course.final.run.scene.images.map (·.unnumbered) = [] ∧
      departing.timers.pending.filterMap (·.incoming?) =
        [{ node := "dusk", serial := 0, picture := duskPicture }] := by
  have hroom : departing.CanSettle := by
    unfold Engine.CanSettle
    decide +kernel
  have hidle : departing.run.status ≠ .idle := by decide +kernel
  have hexit : departing.currentNode? = some exit := by decide +kernel
  have hgarden : (Story.chapter? { stages := [house] } "house" "garden").isSome := by
    decide +kernel
  have hdue : ∀ t ∈ departing.timers.live, t.due ≤ 700 := by decide +kernel
  obtain ⟨course, hcourse, hgo⟩ :=
    Run.images_go_along run_departing hroom hidle hexit rfl rfl hgarden 300 hdue
  obtain rfl := Except.ok.inj (course_departing.symm.trans hcourse)
  obtain ⟨himages, -⟩ := hgo (by decide +kernel)
  have hfinal : ((departing.movedInto house garden).beginning 300
      garden).final.run.scene.images.map (·.unnumbered) = [] := by decide +kernel
  have hpolled : (departing.poll 700).engine.run.scene.images.map (·.unnumbered) =
      [{ node := "dusk", serial := 0, picture := duskPicture }] := by decide +kernel
  rw [hfinal, hpolled] at himages
  exact ⟨_, hcourse, hfinal, himages.symm⟩

/-- An image that is still to come at the end of a chapter is lost, even where the images are to
stay. -/
theorem not_images_kept :
    ¬ ∀ (s : Story) (log : List Node) (e : Engine) (n : Node) (ending : ChapterEnd)
        (stage chapter : String) (now later : Int64) (course : Course),
      Run s log e → e.currentNode? = some n → n.kind = .chapterEnd (some ending) →
      ending.clearVisuals = some false → e.course now (.startChapter stage chapter) = .ok course →
      (∀ m ∈ course.entered, m.directive? = none) → (∀ t ∈ e.timers.live, t.due ≤ later) →
      course.final.run.scene.images.map (·.unnumbered) =
        (e.poll later).engine.run.scene.images.map (·.unnumbered) := by
  intro h
  have hkept := h _ _ departing exit _ "house" "garden" 300 700 _ run_departing (by decide +kernel)
    rfl rfl course_departing (by decide +kernel) (by decide +kernel)
  exact absurd hkept (by decide +kernel)

end Gallery

end BranchingStory
