import BranchingStory.Proofs.Draining
import BranchingStory.Proofs.Saves
/-!
# Runs

What engines there are: new ones over a story, and those that come of others by calls and by loads
of saves. The clock may show any time at any call. `Reachable` takes every such engine; `Run` leaves
out those whose serial numbers have run out, and remembers which nodes were entered.
-/

namespace BranchingStory

/-- The engines that come of new ones over a story by calls and by loads of saves. -/
inductive Reachable (s : Story) : Engine → Prop
  | fresh (settings : Settings) (observers : Nat) : Reachable s { story := s, settings, observers }
  | call {e e' : Engine} {now : Int64} {c : Call} {answer : Answer} (he : Reachable s e)
      (h : e.call now c = .ok (answer, e')) : Reachable s e'
  | load {e saved e' : Engine} {now savedAt : Int64} {text : String} {heard : List Notice}
      (he : Reachable s e) (hsaved : Reachable s saved) (hsave : saved.save savedAt = .ok text)
      (h : e.load now text = .ok (e', heard)) : Reachable s e'

/-- Whether a call starts something anew, so that what was entered before no longer counts. -/
def Call.startsAnew : Call → Bool
  | .start .. | .restart | .startChapter .. => true
  | _ => false

/-- The engines that come of new ones over a story, with the nodes entered since the last start or
load. Serial numbers never run out. A poll answers only once no timer is due any more; that it ever
does is to be asked for at the end of time alone (`Engine.popDue_poll`). -/
inductive Run (s : Story) : List Node → Engine → Prop
  | fresh (settings : Settings) (observers : Nat) : Run s [] { story := s, settings, observers }
  | call {log : List Node} {e : Engine} {now : Int64} {c : Call} {course : Course}
      (he : Run s log e) (h : e.course now c = .ok course) (hsteady : course.Steady)
      (hpolled : c = .poll → now = Int64.maxValue → course.final.timers.popDue now = none) :
    Run s ((if c.startsAnew then [] else log) ++ course.entered) course.final
  | load {log log' : List Node} {e saved e' : Engine} {now savedAt : Int64} {text : String}
      {heard : List Notice} (he : Run s log e) (hsaved : Run s log' saved)
      (hsave : saved.save savedAt = .ok text) (h : e.load now text = .ok (e', heard)) : Run s [] e'

/-- A call that is not refused has a course, and ends as it does. -/
theorem Engine.course_of_call {e e' : Engine} {now : Int64} {c : Call} {answer : Answer}
    (h : e.call now c = .ok (answer, e')) :
    ∃ course, e.course now c = .ok course ∧ course.final = e' := by
  rw [call_eq_course] at h
  cases hcourse : e.course now c with
  | error refusal =>
    rw [hcourse] at h
    cases h
  | ok course =>
    rw [hcourse] at h
    cases h
    exact ⟨course, rfl, rfl⟩

/-- A course is that of a call that is not refused. -/
theorem Engine.call_of_course {e : Engine} {now : Int64} {c : Call} {course : Course}
    (h : e.course now c = .ok course) : e.call now c = .ok (course.answer c, course.final) := by
  rw [call_eq_course, h]
  rfl

theorem Engine.call_of_refused {e : Engine} {now : Int64} {c : Call} {refusal : Refusal}
    (h : e.course now c = .error refusal) : e.call now c = .error refusal := by
  rw [call_eq_course, h]
  rfl

theorem Engine.after_of_course {e : Engine} {now : Int64} {c : Call} {course : Course}
    (h : e.course now c = .ok course) : e.after now c = course.final := by
  rw [after, call_of_course h]

theorem Engine.after_of_refused {e : Engine} {now : Int64} {c : Call} {refusal : Refusal}
    (h : e.course now c = .error refusal) : e.after now c = e := by
  rw [after, call_of_refused h]

/-- A poll in a run ends with no timer that is due. -/
theorem Engine.popDue_final {e : Engine} {now : Int64} {course : Course}
    (h : e.course now .poll = .ok course)
    (hend : now = Int64.maxValue → course.final.timers.popDue now = none) :
    course.final.timers.popDue now = none := by
  by_cases hnow : now = Int64.maxValue
  · exact hend hnow
  · have hcall := call_of_course h
    have hfinal : (e.poll now).engine = course.final := (Prod.mk.inj (Except.ok.inj hcall)).2
    rw [← hfinal]
    exact popDue_poll hnow

theorem Run.reachable {s : Story} {log : List Node} {e : Engine} (h : Run s log e) :
    Reachable s e := by
  induction h with
  | fresh settings observers => exact .fresh settings observers
  | call _ h _ _ ih => exact .call ih (Engine.call_of_course h)
  | load _ _ hsave h ihe ihsaved => exact .load ihe ihsaved hsave h

theorem Reachable.after {s : Story} {e : Engine} (h : Reachable s e) (now : Int64) (c : Call) :
    Reachable s (e.after now c) := by
  unfold Engine.after
  cases hcall : e.call now c with
  | ok answered => exact .call h hcall
  | error refusal => exact h

/-- The engine at the end is that of the last moment. -/
theorem Course.exists_final (course : Course) : ∃ m ∈ course.moments, m.engine = course.final := by
  obtain ⟨opening, later⟩ := course
  induction later generalizing opening with
  | nil => exact ⟨opening, by simp [moments], rfl⟩
  | cons m rest ih =>
    obtain ⟨last, hlast, hfinal⟩ := ih m
    exact ⟨last, .tail _ hlast, hfinal⟩

/-- Two chains through the same moments are one chain of both. -/
theorem isChain_and {α : Type} {R S : α → α → Prop} {l : List α} (hR : l.IsChain R)
    (hS : l.IsChain S) : l.IsChain fun a b => R a b ∧ S a b := by
  induction hR with
  | nil => exact .nil
  | singleton a => exact .singleton a
  | cons_cons hab _ ih =>
    obtain ⟨hab', hrest⟩ := List.isChain_cons_cons.1 hS
    exact .cons_cons ⟨hab, hab'⟩ (ih hrest)

/-- What the first moment of a call has, and every other one takes over from the one before it, all
of them have. -/
theorem Engine.course_keeps {I : Moment → Prop} {e : Engine} {now : Int64} {c : Call}
    {course : Course} (h : e.course now c = .ok course) (hopening : I course.opening)
    (hstep : ∀ a b, Follows now a b → I a → I b) : ∀ m ∈ course.moments, I m :=
  List.IsChain.induction I course.moments (isChain_course h) hstep fun _ => hopening

/-- Whatever has nothing to do with the playthrough, the timers and the serial numbers is the same
at every moment of a call. -/
theorem Engine.kept_course {β : Type} {f : Engine → β}
    (hf : ∀ (e : Engine) run timers imageCounter, f { e with run, timers, imageCounter } = f e)
    {e : Engine} {now : Int64} {c : Call} {course : Course} (h : e.course now c = .ok course) :
    ∀ m ∈ course.moments, f m.engine = f e := by
  have hopens := (course_opens h).1
  have hopening : f course.opening.engine = f e := by
    generalize course.opening = a at hopens
    cases hopens with
    | poll => rfl
    | _ => exact hf e _ _ _
  refine course_keeps (I := fun m => f m.engine = f e) h hopening ?_
  rintro a b (⟨hchapter, honward, hnode⟩ | hfires) ha
  · rename_i chapter id n
    obtain ⟨store, backlog, scene, timers, imageCounter, hframe⟩ :=
      (a.engine.atNode id).enter_frame now n
    rw [hframe]
    exact (hf a.engine _ _ _).trans ha
  · cases hfires <;> exact (hf a.engine _ _ _).trans ha

theorem Engine.kept_final {β : Type} {f : Engine → β}
    (hf : ∀ (e : Engine) run timers imageCounter, f { e with run, timers, imageCounter } = f e)
    {e : Engine} {now : Int64} {c : Call} {course : Course} (h : e.course now c = .ok course) :
    f course.final = f e := by
  obtain ⟨m, hm, hfinal⟩ := course.exists_final
  rw [← hfinal]
  exact kept_course hf h m hm

/-- A call does not change the story. -/
theorem Engine.story_course {e : Engine} {now : Int64} {c : Call} {course : Course}
    (h : e.course now c = .ok course) : ∀ m ∈ course.moments, m.engine.story = e.story :=
  kept_course (f := (·.story)) (fun _ _ _ _ => rfl) h

theorem Engine.story_final {e : Engine} {now : Int64} {c : Call} {course : Course}
    (h : e.course now c = .ok course) : course.final.story = e.story :=
  kept_final (f := (·.story)) (fun _ _ _ _ => rfl) h

/-- A call does not change the settings. -/
theorem Engine.settings_final {e : Engine} {now : Int64} {c : Call} {course : Course}
    (h : e.course now c = .ok course) : course.final.settings = e.settings :=
  kept_final (f := (·.settings)) (fun _ _ _ _ => rfl) h

/-- An engine plays the story it was made for. -/
theorem Reachable.story_eq {s : Story} {e : Engine} (h : Reachable s e) : e.story = s := by
  induction h with
  | fresh settings observers => rfl
  | call _ h ih =>
    obtain ⟨course, hcourse, rfl⟩ := Engine.course_of_call h
    exact (Engine.story_final hcourse).trans ih
  | load _ _ _ h ih _ =>
    obtain ⟨p, -, rfl⟩ := Engine.of_load h
    exact ih

/-! ## A story to walk through -/

/-- Whether a call goes through without serial numbers running out or a poll left undone, entering
these nodes. -/
def Engine.proceeds (e : Engine) (now : Int64) (c : Call) (entered : List Node) : Bool :=
  match e.course now c with
  | .error _ => false
  | .ok course =>
    course.entered = entered ∧ (c = .poll → course.final.timers.popDue now = none) ∧
      course.moments.IsChain fun a b => a.engine.imageCounter ≤ b.engine.imageCounter

/-- A call that goes through has a course, which is steady and leaves no timer due. -/
theorem Engine.of_proceeds {e : Engine} {now : Int64} {c : Call} {entered : List Node}
    (h : e.proceeds now c entered) :
    ∃ course, e.course now c = .ok course ∧ course.entered = entered ∧ course.Steady ∧
      (c = .poll → course.final.timers.popDue now = none) ∧ e.after now c = course.final := by
  unfold proceeds at h
  cases hcourse : e.course now c with
  | error refusal =>
    rw [hcourse] at h
    cases h
  | ok course =>
    rw [hcourse] at h
    obtain ⟨hentered, hpolled, hsteady⟩ := of_decide_eq_true h
    exact ⟨course, rfl, hentered, hsteady, hpolled, after_of_course hcourse⟩

/-- A run goes on with a call that goes through. -/
theorem Run.after {s : Story} {log entered : List Node} {e : Engine} {now : Int64} {c : Call}
    (h : Run s log e) (hproceeds : e.proceeds now c entered) :
    Run s ((if c.startsAnew then [] else log) ++ entered) (e.after now c) := by
  obtain ⟨course, hcourse, rfl, hsteady, hpolled, hafter⟩ := Engine.of_proceeds hproceeds
  rw [hafter]
  exact .call h hcourse hsteady fun hpoll _ => hpolled hpoll

namespace Gallery

/-- The slot in which the pictures of the gallery hang. -/
def wall : Slot := ⟨"wall", 0⟩

def door : Node := { id := "door", next := some "dawn", kind := .start }

/-- The first picture. The story waits until it has come in. -/
def dawnPicture : Picture :=
  { path := "dawn.png", slot := wall, x := some 0.5, effect := some .fadeIn, duration := some 300 }

def dawn : Node :=
  { id := "dawn", next := some "dusk", kind := .image (some { picture := dawnPicture }) }

/-- The second picture. The first one has to go before it comes. -/
def duskPicture : Picture := { path := "dusk.png", slot := wall }

def dusk : Node :=
  { id := "dusk", next := some "label"
    kind := .image (some
      { picture := duskPicture, exitEffect := some .fadeOut, exitDuration := some 400 }) }

def label : Node := { id := "label", text := some "Dawn and dusk.", kind := .dialogue }

/-- A story with two pictures for one slot. -/
def story : Story where
  name := "Gallery"
  stages := [{ id := "house", chapters := [{ id := "hall", nodes := [door, dawn, dusk, label] }] }]
  declared := [.ofValue "visitors" "Visitors" (.number 75)]

/-- The first picture is coming in. -/
def opening : Engine := ({ story } : Engine).after 0 (.start none none)

/-- The first picture is on its way out, and the second one is still to come. -/
def swapping : Engine := opening.after 300 .poll

/-- The second picture hangs on the wall, and no timer is left. -/
def hung : Engine := swapping.after 700 .poll

theorem run_opening : Run story [door, dawn] opening :=
  (Run.fresh {} 0).after (by decide +kernel : Engine.proceeds _ 0 (.start none none) [door, dawn])

theorem run_swapping : Run story [door, dawn, dusk, label] swapping :=
  run_opening.after (by decide +kernel : opening.proceeds 300 .poll [dusk, label])

theorem run_hung : Run story [door, dawn, dusk, label] hung :=
  run_swapping.after (by decide +kernel : swapping.proceeds 700 .poll [])

end Gallery
end BranchingStory
