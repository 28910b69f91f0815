import BranchingStory.Play.Courses
import BranchingStory.Proofs.Entering
import Mathlib.Data.List.Chain
/-!
# The course of a command

The last moment of a course is the one at which the command answers (`Engine.call_eq_course`), and
every moment comes of the one before it in one of four ways (`Follows`), so that whatever these four
keep holds at every moment of every course.
-/

namespace BranchingStory

/-- Whether the serial numbers of images never ran out. -/
def Course.Steady (c : Course) : Prop :=
  c.moments.IsChain fun a b => a.engine.imageCounter ≤ b.engine.imageCounter

namespace Engine

/-! ## A course ends where its command does -/

@[simp] theorem through_nil (e : Engine) : e.through [] = e := rfl

@[simp] theorem through_cons (e : Engine) (m : Moment) (rest : List Moment) :
    e.through (m :: rest) = m.engine.through rest := rfl

theorem through_append (e : Engine) (a b : List Moment) :
    e.through (a ++ b) = (e.through a).through b :=
  List.foldl_append ..

theorem through_walked (now : Int64) (chapter : Chapter) (steps : Nat) (e : Engine) (id : String) :
    e.through (walked now chapter steps e id) = walk now chapter steps e id := by
  induction steps generalizing e id with
  | zero =>
    unfold walked walk atNode
    cases chapter.node? id with
    | none => rfl
    | some n =>
      dsimp only
      generalize enter _ now n = entered
      rcases entered with ⟨after, _ | next⟩ <;> rfl
  | succ steps ih =>
    unfold walked walk atNode
    cases chapter.node? id with
    | none => rfl
    | some n =>
      dsimp only
      generalize enter _ now n = entered
      rcases entered with ⟨after, _ | next⟩
      · rfl
      · exact ih after next

theorem through_wentTo (e : Engine) (now : Int64) (id : String) :
    e.through (e.wentTo now id) = e.goTo now id := by
  unfold wentTo goTo
  cases e.currentChapter? with
  | none => rfl
  | some chapter => exact through_walked ..

theorem through_fired (e : Engine) (now : Int64) (action : Deferred) :
    e.through (e.fired now action) = e.fire now action := by
  cases action with
  | removeImage serial => rfl
  | showImage node d => rfl
  | moveOn next => exact e.through_wentTo now next

theorem through_polled (now : Int64) (most : Nat) (e : Engine) :
    e.through (polled now most e) = (pollWithin now most e).engine := by
  induction most generalizing e with
  | zero => rfl
  | succ most ih =>
    unfold polled pollWithin
    cases e.timers.popDue now with
    | none => rfl
    | some popped =>
      obtain ⟨action, timers⟩ := popped
      have hfired : e.through ({ e with timers }.fired now action) =
          { e with timers }.fire now action := by
        rw [← through_fired]
        cases action <;> rfl
      simp only [through_append, hfired, through_fired]
      exact ih _

theorem final_beginning (e : Engine) (now : Int64) (chapter : Chapter) :
    (e.beginning now chapter).final = e.beginChapter now chapter := by
  unfold beginning beginChapter
  cases chapter.entry? with
  | none => rfl
  | some entry => exact through_walked ..

theorem final_going (e : Engine) (now : Int64) (id : Option String) :
    (e.going now id).final = id.elim e (e.goTo now) := by
  cases id with
  | none => rfl
  | some id => exact e.through_wentTo now id

section
variable (e : Engine) (now : Int64)

theorem map_start (stage chapter : Option String) :
    (e.start now stage chapter).map Prod.fst = (e.starting now stage chapter).map Course.final := by
  unfold start starting
  cases e.story.resolve stage chapter with
  | error what => rfl
  | ok found => exact congrArg Except.ok (final_beginning ..).symm

theorem map_restart : (e.restart now).map Prod.fst = (e.restarting now).map Course.final := by
  unfold restart restarting
  split
  · rfl
  · exact map_start ..

theorem map_startChapter (stage chapter : String) :
    (e.startChapter now stage chapter).map Prod.fst =
      (e.movingOn now stage chapter).map Course.final := by
  unfold startChapter movingOn
  split
  · rfl
  · cases e.story.resolve (some stage) (some chapter) with
    | error what => rfl
    | ok found => exact congrArg Except.ok (final_beginning ..).symm

theorem map_advance : (e.advance now).map Prod.fst = (e.advancing now).map Course.final := by
  unfold advance advancing
  cases e.hindrance? with
  | some refusal => rfl
  | none =>
    cases e.currentNode? with
    | none => rfl
    | some n =>
      dsimp only
      cases n.next? with
      | none => cases n.type <;> rfl
      | some next =>
        cases n.type with
        | choice | chapterEnd => rfl
        | _ => exact congrArg Except.ok (e.final_going now (some next)).symm

theorem map_choose (index : UInt64) :
    (e.choose now index).map Prod.fst = (e.choosing now index).map Course.final := by
  unfold choose choosing
  cases e.hindrance? with
  | some refusal => rfl
  | none =>
    cases e.currentNode? with
    | none => rfl
    | some n =>
      dsimp only
      cases n.kind with
      | choice choices =>
        dsimp only
        cases choices[index.toNat]? with
        | none => rfl
        | some c =>
          dsimp only
          split
          · exact congrArg Except.ok (final_going ..).symm
          · rfl
      | _ => rfl

/-- What holds of no moments, and of the moment at which a node was entered before others of which
it holds, holds of the moments of a walk. -/
theorem walked_induction {chapter : Chapter} {P : Engine → String → List Moment → Prop}
    (hnil : ∀ e id, P e id [])
    (hcons : ∀ e id n after onward rest, chapter.node? id = some n →
      (e.atNode id).enter now n = (after, onward) →
      (rest = [] ∨ ∃ next, onward = some next ∧ P after next rest) →
      P e id (⟨after, some n, onward⟩ :: rest))
    (steps : Nat) (e : Engine) (id : String) : P e id (walked now chapter steps e id) := by
  induction steps generalizing e id with
  | zero =>
    unfold walked
    cases hnode : chapter.node? id with
    | none => exact hnil e id
    | some n =>
      dsimp only
      rcases hafter : (e.atNode id).enter now n with ⟨after, _ | next⟩ <;>
        exact hcons e id n after _ [] hnode hafter (.inl rfl)
  | succ steps ih =>
    unfold walked
    cases hnode : chapter.node? id with
    | none => exact hnil e id
    | some n =>
      dsimp only
      rcases hafter : (e.atNode id).enter now n with ⟨after, _ | next⟩
      · exact hcons e id n after none [] hnode hafter (.inl rfl)
      · exact hcons e id n after _ _ hnode hafter (.inr ⟨next, rfl, ih after next⟩)

/-- Every node on a walk is entered. -/
theorem entered_walked {chapter : Chapter} {steps : Nat} {e : Engine} {id : String} :
    ∀ m ∈ walked now chapter steps e id, m.entered.isSome := by
  refine walked_induction now (P := fun _ _ l => ∀ m ∈ l, m.entered.isSome) ?_ ?_ steps e id
  · exact fun _ _ m hm => absurd hm List.not_mem_nil
  · rintro e id n after onward rest - - hrest m hm
    rcases List.mem_cons.1 hm with rfl | hm
    · rfl
    · rcases hrest with rfl | ⟨next, -, hrest⟩
      · exact absurd hm List.not_mem_nil
      · exact hrest m hm

/-- Every timer that fires has one moment at which no node is entered. -/
theorem length_fired (action : Deferred) :
    ((e.fired now action).filter (·.entered.isNone)).length = 1 := by
  cases action with
  | removeImage serial => rfl
  | showImage node d => rfl
  | moveOn next =>
    have hwalked : (e.wentTo now next).filter (·.entered.isNone) = [] := by
      refine List.filter_eq_nil_iff.2 fun m hm => ?_
      unfold wentTo at hm
      split at hm
      · simpa [Option.isSome_iff_ne_none] using entered_walked now m hm
      · exact absurd hm List.not_mem_nil
    simp [fired, hwalked]

theorem length_polled (most : Nat) :
    ((polled now most e).filter (·.entered.isNone)).length = (pollWithin now most e).fired := by
  induction most generalizing e with
  | zero => rfl
  | succ most ih =>
    unfold polled pollWithin
    cases e.timers.popDue now with
    | none => rfl
    | some popped =>
      obtain ⟨action, timers⟩ := popped
      simp only [List.filter_append, List.length_append, length_fired, ih, through_fired]
      exact Nat.add_comm ..

/-- A call answers as its course does at its end, and it is refused when it has none. -/
theorem call_eq_course (c : Call) :
    e.call now c = (e.course now c).map fun course => (course.answer c, course.final) := by
  have hdone {o : Outcome} {x : Except Refusal Course}
      (h : o.map Prod.fst = x.map Course.final) :
      (o.map fun o => (Answer.done, o.1)) = x.map fun course => (.done, course.final) := by
    rcases o with refusal | o <;> rcases x with refusal' | course
    · exact congrArg Except.error (Except.error.inj h)
    · cases h
    · cases h
    · exact congrArg (fun e => Except.ok (Answer.done, e)) (Except.ok.inj h)
  cases c with
  | start stage chapter => exact hdone (e.map_start now stage chapter)
  | restart => exact hdone (e.map_restart now)
  | startChapter stage chapter => exact hdone (e.map_startChapter now stage chapter)
  | advance => exact hdone (e.map_advance now)
  | choose index => exact hdone (e.map_choose now index)
  | poll =>
    have hfired := length_polled e now e.pollLimit
    have hfinal := through_polled now e.pollLimit e
    exact congrArg Except.ok (congrArg₂ Prod.mk (congrArg Answer.fired hfired.symm) hfinal.symm)

end

end Engine

/-! ## From one moment to the next -/

/-- The node at which the moment before was to go on is entered. -/
inductive Enters (now : Int64) (a : Moment) : Moment → Prop
  | mk {chapter : Chapter} {id : String} {n : Node}
      (hchapter : a.engine.currentChapter? = some chapter) (honward : a.onward = some id)
      (hnode : chapter.node? id = some n) :
    Enters now a ⟨((a.engine.atNode id).enter now n).1, some n,
      ((a.engine.atNode id).enter now n).2⟩

/-- The first of the timers that are due fires. -/
inductive Fires (now : Int64) (a : Moment) : Moment → Prop
  | remove {serial : UInt64} {timers : Timers}
      (hdue : a.engine.timers.popDue now = some (.removeImage serial, timers)) :
    Fires now a
      ⟨{ a.engine with timers, run.scene := a.engine.run.scene.remove serial }, none, none⟩
  | bring {node : String} {d : ImageDirective} {timers : Timers}
      (hdue : a.engine.timers.popDue now = some (.showImage node d, timers)) :
    Fires now a ⟨{ a.engine with timers }.showImage node d, none, none⟩
  | moveOn {next : String} {timers : Timers}
      (hdue : a.engine.timers.popDue now = some (.moveOn next, timers)) :
    Fires now a ⟨{ a.engine with timers }, none, some next⟩

/-- What can come of a moment. -/
def Follows (now : Int64) (a b : Moment) : Prop := Enters now a b ∨ Fires now a b

/-- How a call opens, when it is not refused. -/
inductive Opens (e : Engine) (now : Int64) : Call → Moment → Prop
  | anew (c : Call) (hc : c = .restart ∨ ∃ stage chapter, c = .start stage chapter)
      (stage : Stage) (chapter : Chapter) (id : String) (onward : Option String)
      (hchapter : e.story.chapter? stage.id chapter.id = some chapter) :
    Opens e now c ⟨(e.anew now stage chapter).atNode id, none, onward⟩
  | movedInto (s t : String) (hidle : e.run.status ≠ .idle) (stage : Stage) (chapter : Chapter)
      (id : String) (onward : Option String)
      (hchapter : e.story.chapter? stage.id chapter.id = some chapter) :
    Opens e now (.startChapter s t) ⟨(e.movedInto stage chapter).atNode id, none, onward⟩
  | advance (hfree : e.hindrance? = none) (onward : Option String) :
    Opens e now .advance ⟨e, none, onward⟩
  | finish (hfree : e.hindrance? = none) (n : Node) :
    Opens e now .advance ⟨(e.finishChapter n).1, none, none⟩
  | choose (index : UInt64) (hfree : e.hindrance? = none) (n : Node) (c : Choice)
      (onward : Option String) :
    Opens e now (.choose index) ⟨e.recordChoice now n index c, none, onward⟩
  | poll : Opens e now .poll ⟨e, none, none⟩

/-- What was found in a list, as the first of all or by an id, is found by its own id. -/
theorem find?_own_id {α : Type} {key : α → String} {l : List α} {a : α} {id : Option String}
    (h : id.elim l.head? (fun id => l.find? (key · = id)) = some a) :
    l.find? (key · = key a) = some a := by
  cases id with
  | none =>
    obtain ⟨rest, rfl⟩ := List.head?_eq_some_iff.1 h
    simp
  | some id =>
    have hid : key a = id := by simpa using List.find?_some h
    rw [hid]
    exact h

/-- A node that is found is one of the chapter's, and has the id that was looked for. -/
theorem Chapter.mem_of_node? {c : Chapter} {id : String} {n : Node} (h : c.node? id = some n) :
    n ∈ c.nodes ∧ n.id = id :=
  ⟨List.mem_of_find?_eq_some h, by simpa using List.find?_some h⟩

/-- The chapter that was resolved is the one with its id in the stage with its id. -/
theorem Story.chapter?_of_resolve {s : Story} {stage chapter : Option String} {found : Stage}
    {inside : Chapter} (h : s.resolve stage chapter = .ok (found, inside)) :
    s.chapter? found.id inside.id = some inside := by
  have hok {α : Type} {o : Option α} {m : Missing} {a : α}
      (h : o.elim (Except.error m) Except.ok = .ok a) : o = some a := by
    cases o <;> cases h
    rfl
  have hstep {α β : Type} {x : Except Missing α} {g : α → Except Missing β} {b : β}
      (h : x >>= g = .ok b) : ∃ a, x = .ok a ∧ g a = .ok b := by
    cases x with
    | error m => cases h
    | ok a => exact ⟨a, rfl, h⟩
  obtain ⟨hstage, hchapter⟩ :
      stage.elim s.stages.head? (fun id => s.stages.find? (·.id = id)) = some found ∧
        chapter.elim found.chapters.head? (fun id => found.chapters.find? (·.id = id)) =
          some inside := by
    rcases stage with _ | id <;> rcases chapter with _ | id' <;>
      · obtain ⟨st, hst, hrest⟩ := hstep h
        obtain ⟨ch, hch, hpair⟩ := hstep hrest
        cases hpair
        exact ⟨hok hst, hok hch⟩
  have hfound : s.stage? found.id = some found := find?_own_id hstage
  rw [Story.chapter?, hfound]
  exact find?_own_id hchapter

namespace Engine

theorem currentChapter?_enter (e : Engine) (now : Int64) (n : Node) :
    (e.enter now n).1.currentChapter? = e.currentChapter? := by
  obtain ⟨store, backlog, scene, timers, imageCounter, h⟩ := e.enter_frame now n
  rw [h]
  rfl

theorem isChain_walked {now : Int64} {chapter : Chapter} (steps : Nat) {a : Moment} {id : String}
    (hchapter : a.engine.currentChapter? = some chapter) (honward : a.onward = some id) :
    (a :: walked now chapter steps a.engine id).IsChain (Enters now) := by
  refine walked_induction now (P := fun e id l => ∀ a : Moment,
    a.engine = e → a.engine.currentChapter? = some chapter → a.onward = some id →
      (a :: l).IsChain (Enters now)) ?_ ?_ steps a.engine id a rfl hchapter honward
  · exact fun e id a _ _ _ => .singleton a
  · rintro e id n after onward rest hnode hafter hrest a rfl hchapter honward
    have henters : Enters now a _ := .mk hchapter honward hnode
    have hstays := (currentChapter?_enter (a.engine.atNode id) now n).trans hchapter
    rw [hafter] at henters hstays
    refine .cons_cons henters ?_
    rcases hrest with rfl | ⟨next, rfl, hrest⟩
    · exact .singleton _
    · exact hrest _ rfl hstays rfl

theorem isChain_wentTo (now : Int64) {a : Moment} {id : String} (honward : a.onward = some id) :
    (a :: a.engine.wentTo now id).IsChain (Enters now) := by
  unfold wentTo
  cases hchapter : a.engine.currentChapter? with
  | none => exact .singleton a
  | some chapter => exact isChain_walked _ hchapter honward

theorem isChain_going (e : Engine) (now : Int64) (id : Option String) :
    (e.going now id).moments.IsChain (Enters now) := by
  cases id with
  | none => exact .singleton _
  | some id => exact isChain_wentTo now (a := ⟨e, none, some id⟩) rfl

theorem isChain_beginning {e : Engine} {chapter : Chapter} (now : Int64)
    (hchapter : e.currentChapter? = some chapter) :
    (e.beginning now chapter).moments.IsChain (Enters now) := by
  unfold beginning
  cases chapter.entry? with
  | none => exact .singleton _
  | some entry => exact isChain_walked (a := ⟨e.atNode entry, none, some entry⟩) _ hchapter rfl

/-! ## Every course -/

/-- A chain that goes on from its last moment, whatever that moment had in mind. -/
theorem isChain_append {now : Int64} {a : Moment} {first rest : List Moment}
    (hfirst : (a :: first).IsChain (Follows now))
    (hrest : ∀ b : Moment, b.engine = a.engine.through first → (b :: rest).IsChain (Follows now)) :
    (a :: (first ++ rest)).IsChain (Follows now) := by
  induction first generalizing a with
  | nil => exact hrest a rfl
  | cons b first ih =>
    obtain ⟨hab, hfirst⟩ := List.isChain_cons_cons.1 hfirst
    exact .cons_cons hab (ih hfirst hrest)

theorem isChain_fired {now : Int64} {a : Moment} {action : Deferred} {timers : Timers}
    (hdue : a.engine.timers.popDue now = some (action, timers)) :
    (a :: { a.engine with timers }.fired now action).IsChain (Follows now) := by
  cases action with
  | removeImage serial => exact .cons_cons (.inr (.remove hdue)) (.singleton _)
  | showImage node d => exact .cons_cons (.inr (.bring hdue)) (.singleton _)
  | moveOn next =>
    have hmoved : Fires now a ⟨{ a.engine with timers }, none, some next⟩ := .moveOn hdue
    have hwent := isChain_wentTo now (a := ⟨{ a.engine with timers }, none, some next⟩) rfl
    exact .cons_cons (.inr hmoved) (hwent.imp fun _ _ => .inl)

theorem isChain_polled {now : Int64} (most : Nat) {a : Moment} :
    (a :: polled now most a.engine).IsChain (Follows now) := by
  induction most generalizing a with
  | zero => exact .singleton a
  | succ most ih =>
    unfold polled
    cases hdue : a.engine.timers.popDue now with
    | none => exact .singleton a
    | some popped =>
      obtain ⟨action, timers⟩ := popped
      refine isChain_append (isChain_fired hdue) fun b hb => ?_
      have hengine : { a.engine with timers }.through ({ a.engine with timers }.fired now action) =
          b.engine := by
        rw [hb]
        cases action <;> rfl
      rw [hengine]
      exact ih

theorem starting_opens {e : Engine} {now : Int64} {stage chapter : Option String} {course : Course}
    (h : e.starting now stage chapter = .ok course) (c : Call)
    (hc : c = .restart ∨ ∃ stage chapter, c = .start stage chapter) :
    Opens e now c course.opening ∧ course.moments.IsChain (Enters now) := by
  unfold starting at h
  cases hfound : e.story.resolve stage chapter with
  | error what => simp [hfound] at h
  | ok found =>
    obtain ⟨st, ch⟩ := found
    simp only [hfound, Except.ok.injEq] at h
    have hchapter := Story.chapter?_of_resolve hfound
    subst h
    refine ⟨?_, isChain_beginning now hchapter⟩
    unfold beginning
    cases ch.entry? with
    | none => exact .anew c hc st ch "" none hchapter
    | some entry => exact .anew c hc st ch entry (some entry) hchapter

theorem movingOn_opens {e : Engine} {now : Int64} {s t : String} {course : Course}
    (h : e.movingOn now s t = .ok course) :
    Opens e now (.startChapter s t) course.opening ∧ course.moments.IsChain (Enters now) := by
  unfold movingOn at h
  split at h
  · cases h
  · rename_i hidle
    cases hfound : e.story.resolve (some s) (some t) with
    | error what => simp [hfound] at h
    | ok found =>
      obtain ⟨st, ch⟩ := found
      simp only [hfound, Except.ok.injEq] at h
      have hchapter := Story.chapter?_of_resolve hfound
      subst h
      refine ⟨?_, isChain_beginning now hchapter⟩
      unfold beginning
      cases ch.entry? with
      | none => exact .movedInto s t hidle st ch "" none hchapter
      | some entry => exact .movedInto s t hidle st ch entry (some entry) hchapter

theorem advancing_opens {e : Engine} {now : Int64} {course : Course}
    (h : e.advancing now = .ok course) :
    Opens e now .advance course.opening ∧ course.moments.IsChain (Enters now) := by
  unfold advancing at h
  cases hfree : e.hindrance? with
  | some refusal => simp [hfree] at h
  | none =>
    simp only [hfree] at h
    split at h
    · cases h
      exact ⟨.advance hfree none, .singleton _⟩
    · rename_i n hn
      split at h
      · cases h
      · cases h
        exact ⟨.finish hfree n, .singleton _⟩
      · cases h
        exact ⟨.advance hfree n.next?, isChain_going e now n.next?⟩

theorem choosing_opens {e : Engine} {now : Int64} {index : UInt64} {course : Course}
    (h : e.choosing now index = .ok course) :
    Opens e now (.choose index) course.opening ∧ course.moments.IsChain (Enters now) := by
  unfold choosing at h
  cases hfree : e.hindrance? with
  | some refusal => simp [hfree] at h
  | none =>
    simp only [hfree] at h
    split at h
    · cases h
    · rename_i n hn
      split at h
      · split at h
        · cases h
        · rename_i c hc
          split at h
          · cases h
            exact ⟨.choose index hfree n c c.target?, isChain_going _ now c.target?⟩
          · cases h
      · cases h

/-- A course opens in one of a few ways, and every later moment comes of the one before it. A timer
fires in a poll only. -/
theorem course_opens {e : Engine} {now : Int64} {c : Call} {course : Course}
    (h : e.course now c = .ok course) :
    Opens e now c course.opening ∧
      if c = .poll then course.moments.IsChain (Follows now)
      else course.moments.IsChain (Enters now) := by
  cases c with
  | start stage chapter => exact starting_opens h _ (.inr ⟨stage, chapter, rfl⟩)
  | restart =>
    change e.restarting now = .ok course at h
    unfold restarting at h
    split at h
    · cases h
    · exact starting_opens h _ (.inl rfl)
  | startChapter s t => exact movingOn_opens h
  | advance => exact advancing_opens h
  | choose index => exact choosing_opens h
  | poll =>
    cases h
    exact ⟨.poll, isChain_polled _⟩

theorem isChain_course {e : Engine} {now : Int64} {c : Call} {course : Course}
    (h : e.course now c = .ok course) : course.moments.IsChain (Follows now) := by
  have hchain := (course_opens h).2
  split at hchain
  · exact hchain
  · exact hchain.imp fun _ _ => .inl

end Engine

end BranchingStory
