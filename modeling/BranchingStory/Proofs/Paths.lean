import BranchingStory.Proofs.Transitions
import BranchingStory.Proofs.Walks
import BranchingStory.Story.Validation
import Mathlib.Logic.Relation
/-!
# Keeping to the paths of a chapter

Whatever is asked of an engine, it goes from a node to a target of that node only. So the node that
it is at is always one to which a path leads from the entry of the chapter, and where the check of a
chapter finds no target missing, the engine never looks for a node that is not there.
-/

namespace BranchingStory

/-- The issue of a node that points to one that is not there. -/
def Issue.missingTarget (location node target : String) : Issue :=
  .warning location s!"node '{node}' points to missing node '{target}'"

namespace Chapter

variable {c : Chapter} {a b id : String} {n : Node}

/-- A node leads to another one if both are there and the other one is among its targets. -/
def Leads (c : Chapter) (a b : String) : Prop :=
  ∃ n, c.node? a = some n ∧ b ∈ n.targets ∧ (c.node? b).isSome

/-- Whether a path leads from the entry to a node. -/
def OnPath (c : Chapter) (id : String) : Prop :=
  ∃ entry, c.entry? = some entry ∧ Relation.ReflTransGen c.Leads entry id

/-- Whether a node may come next: a path leads to it, or to a node that has it among its targets. In
the latter case it may be missing. -/
def Expects (c : Chapter) (id : String) : Prop :=
  c.OnPath id ∨ ∃ a n, c.OnPath a ∧ c.node? a = some n ∧ id ∈ n.targets

/-! ## Nodes that are there -/

theorem isSome_node?_iff : (c.node? id).isSome ↔ id ∈ c.nodeIds := by
  simp [node?, nodeIds, List.find?_isSome]

theorem isSome_node?_of_mem (h : n ∈ c.nodes) : (c.node? n.id).isSome :=
  isSome_node?_iff.2 (List.mem_map_of_mem h)

/-- The entry of a chapter is one of its nodes. -/
theorem isSome_node?_of_entry? {entry : String} (h : c.entry? = some entry) :
    (c.node? entry).isSome := by
  unfold entry? at h
  split at h
  · rename_i hstart
    cases h
    exact hstart
  · obtain ⟨n, hn, rfl⟩ := Option.map_eq_some_iff.1 h
    refine isSome_node?_of_mem ?_
    rcases Option.or_eq_some_iff.1 hn with hfound | ⟨-, hfirst⟩
    · exact List.mem_of_find?_eq_some hfound
    · exact List.mem_of_head? hfirst

/-- A chapter with nodes has an entry. -/
theorem isSome_entry? (h : c.nodes ≠ []) : c.entry?.isSome := by
  unfold entry?
  split
  · rfl
  · rw [Option.isSome_map, Option.isSome_or]
    simp [h]

/-! ## Paths -/

theorem OnPath.entry {entry : String} (h : c.entry? = some entry) : c.OnPath entry :=
  ⟨entry, h, .refl⟩

/-- A node that a path leads to is there. -/
theorem OnPath.isSome (h : c.OnPath id) : (c.node? id).isSome := by
  obtain ⟨entry, hentry, hpath⟩ := h
  cases hpath with
  | refl => exact isSome_node?_of_entry? hentry
  | tail _ hlast => exact hlast.choose_spec.2.2

theorem OnPath.tail (h : c.OnPath a) (hlead : c.Leads a b) : c.OnPath b := by
  obtain ⟨entry, hentry, hpath⟩ := h
  exact ⟨entry, hentry, hpath.tail hlead⟩

/-- A node that may come next and is there is one that a path leads to. -/
theorem Expects.onPath (h : c.Expects id) (hid : (c.node? id).isSome) : c.OnPath id := by
  rcases h with hpath | ⟨a, n, ha, hn, hmem⟩
  · exact hpath
  · exact ha.tail ⟨n, hn, hmem, hid⟩

/-- Where no target is missing, neither is a node that may come next. -/
theorem Expects.isSome (h : c.Expects id)
    (hnone : ∀ n ∈ c.nodes, ∀ target ∈ n.targets, (c.node? target).isSome) :
    (c.node? id).isSome := by
  rcases h with hpath | ⟨a, n, -, hn, hmem⟩
  · exact hpath.isSome
  · exact hnone n (mem_of_node? hn).1 id hmem

end Chapter

/-- Where the check of a chapter finds no target missing, all targets are there. -/
theorem Story.isSome_target {s : Story} {stage chapter : String} {c : Chapter}
    (hchapter : s.chapter? stage chapter = some c)
    (hnone : ∀ location node target,
      Issue.missingTarget location node target ∉ s.chapterIssues stage chapter) :
    ∀ n ∈ c.nodes, ∀ target ∈ n.targets, (c.node? target).isSome := by
  intro n hn target htarget
  obtain ⟨found, hfound, hinside⟩ := Option.bind_eq_some_iff.1 hchapter
  rw [Chapter.isSome_node?_iff]
  by_contra hmissing
  refine hnone s!"stage '{found.title}' / chapter '{c.title}'" n.id target ?_
  unfold chapterIssues
  rw [hfound]
  dsimp only
  rw [hinside]
  refine List.mem_append_right _ (List.mem_flatMap.2 ⟨n, hn, List.mem_map.2 ⟨target, ?_, rfl⟩⟩)
  exact List.mem_filter.2 ⟨htarget, decide_eq_true hmissing⟩

/-! ## Where a node leads -/

theorem Node.mem_targets_of_next? {n : Node} {id : String} (h : n.next? = some id) :
    id ∈ n.targets :=
  List.mem_append_left _ (Option.mem_toList.2 h)

theorem Node.mem_targets_of_choice {n : Node} {choices : List Choice} {choice : Choice}
    {id : String} (hkind : n.kind = .choice choices) (hchoice : choice ∈ choices)
    (h : choice.target? = some id) : id ∈ n.targets := by
  unfold targets
  rw [hkind]
  exact List.mem_append_right _ (List.mem_filterMap.2 ⟨choice, hchoice, h⟩)

/-- What a node leads to at once is one of its targets. -/
theorem Node.Acts.mem_targets {n : Node} {now : Int64} {e e' : Engine} {id : String}
    (h : n.Acts now e e' (some id)) : id ∈ n.targets := by
  generalize honward : some id = onward at h
  cases h with
  | branch hkind =>
    unfold targets
    rw [hkind]
    refine List.mem_append_right _ (List.mem_append_left _ ?_)
    exact List.mem_filterMap.2 ⟨_, List.mem_append_right _ (.head _), honward.symm⟩
  | otherwise hkind =>
    unfold targets
    rw [hkind]
    refine List.mem_append_right _ (List.mem_append_right _ ?_)
    exact Option.mem_toList.2 honward.symm
  | start _ hnext => exact mem_targets_of_next? (hnext.trans honward.symm)
  | operations | script | noImage | image => exact mem_targets_of_next? honward.symm
  | startOnly | entrance | stop => cases honward

theorem Engine.mem_targets_of_enter {e : Engine} {now : Int64} {n : Node} {id : String}
    (h : (e.enter now n).2 = some id) : id ∈ n.targets := by
  have hacts : n.Acts now (e.affected n) (e.enter now n).1 (e.enter now n).2 := acts_iff.2 rfl
  rw [h] at hacts
  exact hacts.mem_targets

/-! ## Engines that keep to the paths -/

/-- An engine that has been started is at a node that a path leads to, unless its chapter has no
nodes at all. -/
def Engine.Tracked (e : Engine) : Prop :=
  e.run.status ≠ .idle → ∀ c, e.currentChapter? = some c → c.nodes ≠ [] → c.OnPath e.run.node

/-- A moment of such an engine. The node that is to be entered next is one that may come next. -/
structure Moment.Tracked (m : Moment) : Prop where
  engine : m.engine.Tracked
  onward : ∀ id, m.onward = some id → ∀ c, m.engine.currentChapter? = some c → c.Expects id

namespace Engine

variable {e : Engine} {n : Node}

/-- The node that a tracked engine is at is one that a path leads to. -/
theorem Tracked.of_currentNode? (h : e.Tracked) (hplaying : e.run.status = .playing)
    (hn : e.currentNode? = some n) {c : Chapter} (hchapter : e.currentChapter? = some c) :
    c.OnPath e.run.node ∧ c.node? e.run.node = some n := by
  have hnode : c.node? e.run.node = some n := by
    rwa [currentNode?, hchapter] at hn
  refine ⟨h (by simp [hplaying]) c hchapter fun hempty => ?_, hnode⟩
  have hmem := (Chapter.mem_of_node? hnode).1
  rw [hempty] at hmem
  exact absurd hmem List.not_mem_nil

/-- What the current node has among its targets may come next. -/
theorem Tracked.expects (h : e.Tracked) (hplaying : e.run.status = .playing)
    (hn : e.currentNode? = some n) {id : String} (hid : id ∈ n.targets) {c : Chapter}
    (hchapter : e.currentChapter? = some c) : c.Expects id := by
  obtain ⟨hpath, hnode⟩ := h.of_currentNode? hplaying hn hchapter
  exact .inr ⟨_, n, hpath, hnode, hid⟩

theorem tracked_beginning (now : Int64) {chapter : Chapter}
    (hchapter : e.currentChapter? = some chapter) :
    (e.beginning now chapter).opening.Tracked := by
  unfold beginning
  cases hentry : chapter.entry? with
  | none =>
    refine ⟨fun _ c hc hnodes => ?_, nofun⟩
    obtain rfl : c = chapter := Option.some.inj (hc.symm.trans hchapter)
    exact absurd (c.isSome_entry? hnodes) (by simp [hentry])
  | some entry =>
    have hpath := Chapter.OnPath.entry hentry
    refine ⟨fun _ c hc _ => ?_, fun id hid c hc => ?_⟩
    · obtain rfl : c = chapter := Option.some.inj (hc.symm.trans hchapter)
      exact hpath
    · obtain rfl : c = chapter := Option.some.inj (hc.symm.trans hchapter)
      cases hid
      exact .inl hpath

theorem tracked_starting {now : Int64} {stage chapter : Option String} {course : Course}
    (h : e.starting now stage chapter = .ok course) : course.opening.Tracked := by
  unfold starting at h
  cases hfound : e.story.resolve stage chapter with
  | error what => simp [hfound] at h
  | ok found =>
    obtain ⟨st, ch⟩ := found
    simp only [hfound, Except.ok.injEq] at h
    subst h
    exact tracked_beginning now (Story.chapter?_of_resolve hfound)

theorem tracked_movingOn {now : Int64} {s t : String} {course : Course}
    (h : e.movingOn now s t = .ok course) : course.opening.Tracked := by
  unfold movingOn at h
  split at h
  · cases h
  · cases hfound : e.story.resolve (some s) (some t) with
    | error what => simp [hfound] at h
    | ok found =>
      obtain ⟨st, ch⟩ := found
      simp only [hfound, Except.ok.injEq] at h
      subst h
      exact tracked_beginning now (Story.chapter?_of_resolve hfound)

theorem Tracked.advancing (he : e.Tracked) {now : Int64} {course : Course}
    (h : e.advancing now = .ok course) : course.opening.Tracked := by
  unfold Engine.advancing at h
  cases hfree : e.hindrance? with
  | some refusal => simp [hfree] at h
  | none =>
    have hplaying := (hindrance?_eq_none.1 hfree).1
    simp only [hfree] at h
    split at h
    · cases h
      exact ⟨he, nofun⟩
    · rename_i n hn
      split at h
      · cases h
      · cases h
        exact ⟨fun _ => he (by simp [hplaying]), nofun⟩
      · cases h
        exact ⟨he, fun id hid c hc =>
          he.expects hplaying hn (Node.mem_targets_of_next? hid) hc⟩

theorem Tracked.choosing (he : e.Tracked) {now : Int64} {index : UInt64} {course : Course}
    (h : e.choosing now index = .ok course) : course.opening.Tracked := by
  unfold Engine.choosing at h
  cases hfree : e.hindrance? with
  | some refusal => simp [hfree] at h
  | none =>
    have hplaying := (hindrance?_eq_none.1 hfree).1
    simp only [hfree] at h
    split at h
    · cases h
    · rename_i n hn
      split at h
      · rename_i choices hkind
        split at h
        · cases h
        · rename_i choice hchoice
          split at h
          · cases h
            have hmem := List.mem_of_getElem? hchoice
            exact ⟨he, fun id hid c hc =>
              he.expects hplaying hn (Node.mem_targets_of_choice hkind hmem hid) hc⟩
          · cases h
      · cases h

/-- A call begins at a node that a path leads to, and goes on from there. -/
theorem Tracked.opening (he : e.Tracked) {now : Int64} {c : Call} {course : Course}
    (h : e.course now c = .ok course) : course.opening.Tracked := by
  cases c with
  | start stage chapter => exact tracked_starting h
  | restart =>
    change e.restarting now = .ok course at h
    unfold restarting at h
    split at h
    · cases h
    · exact tracked_starting h
  | startChapter s t => exact tracked_movingOn h
  | advance => exact he.advancing h
  | choose index => exact he.choosing h
  | poll =>
    cases h
    exact ⟨he, nofun⟩

end Engine

theorem Enters.tracked {now : Int64} {a b : Moment} (h : Enters now a b) (ha : a.Tracked) :
    b.Tracked := by
  obtain ⟨hchapter, honward, hnode⟩ := h
  rename_i chapter id n
  have hpath := (ha.onward id honward chapter hchapter).onPath (Option.isSome_of_eq_some hnode)
  have hstays := Engine.currentChapter?_enter (a.engine.atNode id) now n
  have hsame (c : Chapter) (hc : ((a.engine.atNode id).enter now n).1.currentChapter? = some c) :
      c = chapter := Option.some.inj (hc.symm.trans (hstays.trans hchapter))
  refine ⟨fun _ c hc _ => ?_, fun next hnext c hc => ?_⟩
  · obtain rfl := hsame c hc
    obtain ⟨store, backlog, scene, timers, imageCounter, hframe⟩ :=
      (a.engine.atNode id).enter_frame now n
    rw [hframe]
    exact hpath
  · obtain rfl := hsame c hc
    exact .inr ⟨id, n, hpath, hnode, Engine.mem_targets_of_enter hnext⟩

theorem Fires.tracked {now : Int64} {a b : Moment} (h : Fires now a b) (hpaced : a.engine.Paced)
    (ha : a.Tracked) : b.Tracked := by
  cases h with
  | remove => exact ⟨ha.engine, nofun⟩
  | bring => exact ⟨ha.engine, nofun⟩
  | moveOn hdue =>
    obtain ⟨timer, hlive, -, haction, -⟩ := Timers.of_popDue hdue
    obtain ⟨hplaying, n, d, hn, -, -, -, hnext⟩ := hpaced.heldBack timer hlive _ haction
    refine ⟨ha.engine, fun id hid c hc => ?_⟩
    cases hid
    exact ha.engine.expects hplaying hn (Node.mem_targets_of_next? hnext) hc

namespace Engine

/-- At every moment of a call the engine keeps to the paths. -/
theorem tracked_course {e : Engine} {now : Int64} {c : Call} {course : Course}
    (h : e.course now c = .ok course) (hpaced : e.Paced) (he : e.Tracked) :
    ∀ m ∈ course.moments, m.Tracked := by
  have hopens := (course_opens h).1
  have hboth := course_keeps (I := fun m => m.Paced ∧ m.Tracked) h
    ⟨hopens.paced hpaced, he.opening h⟩ fun a b hab ha => ?_
  · exact fun m hm => (hboth m hm).2
  · rcases hab with hentered | hfired
    · exact ⟨hentered.paced ha.1, hentered.tracked ha.2⟩
    · exact ⟨hfired.paced ha.1, hfired.tracked ha.1.1 ha.2⟩

end Engine

theorem Reachable.tracked {s : Story} {e : Engine} (h : Reachable s e) : e.Tracked := by
  induction h with
  | fresh settings observers => exact fun hidle => absurd rfl hidle
  | call he h ih =>
    obtain ⟨course, hcourse, rfl⟩ := Engine.course_of_call h
    obtain ⟨m, hm, hfinal⟩ := course.exists_final
    rw [← hfinal]
    exact (Engine.tracked_course hcourse he.paced ih m hm).engine
  | load he hsaved hsave h _ ihsaved =>
    rename_i e saved _ now savedAt text heard _
    obtain ⟨settled, store, scene, playTime, -, -, rfl⟩ := Engine.of_load_save hsave h
    have hstory : e.story = saved.story := he.story_eq.trans hsaved.story_eq.symm
    have hstatus := Engine.status_resume (p := { saved.run with store, scene, playTime })
      hsaved.paced.idle e now
    intro hidle c hc hnodes
    refine ihsaved (fun hsavedIdle => hidle (hstatus.trans hsavedIdle)) c ?_ hnodes
    unfold Engine.currentChapter? at hc ⊢
    rw [← hstory]
    exact hc

/-! ## Main result -/

/-- In every reachable state that is not idle the current node is there, and targets lead to it from
the entry of the chapter, unless the chapter has no nodes. Whatever is asked of the engine then, it
never looks for a node that is not there in a chapter of which the check reports no target that is
missing: a walk looks for the node that is to be entered next, at every one of its moments. -/
theorem Reachable.keeps_to_paths {s : Story} {e : Engine} (h : Reachable s e) :
    (e.run.status ≠ .idle → ∀ c, e.currentChapter? = some c → c.nodes ≠ [] →
      ∃ entry n, c.entry? = some entry ∧ e.currentNode? = some n ∧
        Relation.ReflTransGen c.Leads entry n.id) ∧
    ∀ now call course, e.course now call = .ok course → ∀ m ∈ course.moments,
      ∀ c, m.engine.currentChapter? = some c →
      (∀ location node target, Issue.missingTarget location node target ∉
        s.chapterIssues m.engine.run.stage m.engine.run.chapter) →
      ∀ id, m.onward = some id → (c.node? id).isSome := by
  refine ⟨?atPath, ?finds⟩
  case atPath =>
    intro hidle c hc hnodes
    have hpath := h.tracked hidle c hc hnodes
    obtain ⟨n, hn⟩ := Option.isSome_iff_exists.1 hpath.isSome
    obtain ⟨entry, hentry, hleads⟩ := hpath
    refine ⟨entry, n, hentry, ?_, ?_⟩
    · rw [Engine.currentNode?, hc]
      exact hn
    · rw [(Chapter.mem_of_node? hn).2]
      exact hleads
  case finds =>
    intro now call course hcourse m hm c hc hnone id hid
    have hexpects := (Engine.tracked_course hcourse h.paced h.tracked m hm).onward id hid c hc
    have hstory : m.engine.story = s := (Engine.story_course hcourse m hm).trans h.story_eq
    refine hexpects.isSome (Story.isSome_target ?_ hnone)
    rw [← hstory]
    exact hc

/-- The story is at the first picture, and all that it looks for from there on is in the hall. -/
theorem Gallery.opening_keeps_to_paths :
    (∃ entry n, hall.entry? = some entry ∧ opening.currentNode? = some n ∧
      Relation.ReflTransGen hall.Leads entry n.id) ∧
    ∃ course, opening.course 300 .poll = .ok course ∧
      ∀ m ∈ course.moments, ∀ id, m.onward = some id → (hall.node? id).isSome := by
  obtain ⟨hpaths, hfinds⟩ := Reachable.keeps_to_paths run_opening.reachable
  refine ⟨hpaths (by decide +kernel) hall (by decide +kernel) (by decide), _, rfl, ?_⟩
  intro m hm id hid
  have hplace : ∀ m ∈ (⟨opening, none, none⟩ : Moment) ::
      Engine.polled 300 opening.pollLimit opening,
      m.engine.currentChapter? = some hall ∧ m.engine.run.stage = "house" ∧
        m.engine.run.chapter = "hall" := by decide +kernel
  obtain ⟨hchapter, hstage, hinside⟩ := hplace m hm
  refine hfinds 300 .poll _ rfl m hm hall hchapter ?_ id hid
  intro location node target hissue
  have herrors : ∀ i ∈ story.chapterIssues "house" "hall", i.isError := by decide +kernel
  rw [hstage, hinside] at hissue
  exact Bool.false_ne_true (herrors _ hissue)

end BranchingStory
