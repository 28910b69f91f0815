import BranchingStory.Proofs.Finishing
import BranchingStory.Proofs.Paths
/-!
# Starting a story that was checked

A check that finds no error has seen a start node in every chapter. So wherever a story is started,
in a chapter that is there, it comes to a node. Without a chapter given it starts in its first stage;
where that one has no chapters, which the check lets pass with a warning, there is nothing to start
with, whatever the stages after it have.
-/

namespace BranchingStory

/-! ## What a check without errors has seen -/

/-- Whether a check finds no errors. It may have warnings. -/
def Story.Passes (s : Story) : Prop := ∀ i ∈ s.issues, i.isError = false

instance (s : Story) : Decidable s.Passes := inferInstanceAs (Decidable (∀ i ∈ s.issues, _))

namespace Chapter

/-- A chapter without nodes lacks a start node. -/
theorem mem_issues_of_empty {c : Chapter} (h : c.nodes = []) (stageTitle : String) :
    Issue.error s!"stage '{stageTitle}' / chapter '{c.title}'" "no start node" ∈
      c.issues stageTitle := by
  have hstart (location : String) : c.startIssues location = [.error location "no start node"] := by
    unfold startIssues nodesOfType
    rw [h]
    rfl
  unfold issues
  simp [hstart]

end Chapter

namespace Story

variable {s : Story} {st : Stage} {c : Chapter}

theorem mem_issues {i : Issue} (hst : st ∈ s.stages) (hc : c ∈ st.chapters)
    (hi : i ∈ c.issues st.title) : i ∈ s.issues := by
  have hstages : s.stages.isEmpty = false := List.isEmpty_eq_false_iff_exists_mem.2 ⟨st, hst⟩
  have hchapters : st.chapters.isEmpty = false := List.isEmpty_eq_false_iff_exists_mem.2 ⟨c, hc⟩
  unfold issues
  rw [hstages]
  refine List.mem_flatMap.2 ⟨st, hst, ?_⟩
  unfold Stage.issues
  rw [hchapters]
  exact List.mem_flatMap.2 ⟨c, hc, hi⟩

namespace Passes

theorem stages_ne_nil (h : s.Passes) : s.stages ≠ [] := by
  intro hnone
  have hissues : s.issues = [.error s!"project '{s.name}'" "no stages defined"] := by
    unfold issues
    rw [hnone]
    rfl
  have hwarns := h (.error _ _) (by rw [hissues]; exact .head _)
  cases hwarns

theorem nodes_ne_nil (h : s.Passes) (hst : st ∈ s.stages) (hc : c ∈ st.chapters) :
    c.nodes ≠ [] := by
  intro hempty
  have hwarns := h _ (mem_issues hst hc (Chapter.mem_issues_of_empty hempty st.title))
  cases hwarns

/-- No chapter that a story can be started in is without nodes. -/
theorem nodes_ne_nil_of_resolve (h : s.Passes) {stage chapter : Option String}
    (hfound : s.resolve stage chapter = .ok (st, c)) : c.nodes ≠ [] := by
  obtain ⟨inStage, hstage, hinside⟩ := Option.bind_eq_some_iff.1 (chapter?_of_resolve hfound)
  exact h.nodes_ne_nil (List.mem_of_find?_eq_some hstage) (List.mem_of_find?_eq_some hinside)

end Passes

/-! ## Where a story starts -/

theorem resolve_first {rest : List Stage} (h : s.stages = st :: rest) :
    s.resolve none none = st.chapters.head?.elim (.error (.chapter st.id "<first>"))
      fun c => .ok (st, c) := by
  obtain ⟨id, title, description, chapters⟩ := st
  unfold resolve
  rw [h]
  cases chapters <;> rfl

end Story

theorem Engine.status_beginChapter (e : Engine) (now : Int64) (chapter : Chapter) :
    (e.beginChapter now chapter).run.status = e.run.status := by
  unfold beginChapter
  cases chapter.entry? with
  | none => rfl
  | some entry => exact status_walk ..

/-- In a chapter with nodes a story comes to one of them when it is started. -/
theorem Reachable.start_of_resolve {s : Story} {e : Engine} (h : Reachable s e)
    {stage chapter : Option String} {st : Stage} {c : Chapter}
    (hfound : s.resolve stage chapter = .ok (st, c)) (hnodes : c.nodes ≠ []) (now : Int64) :
    ∃ after heard n, e.start now stage chapter = .ok (after, heard) ∧
      after.currentNode? = some n := by
  have hstart : e.start now stage chapter =
      .ok ((e.anew now st c).beginChapter now c,
        ((e.anew now st c).beginChapter now c).notices true) := by
    have hfound' : e.story.resolve stage chapter = .ok (st, c) := h.story_eq ▸ hfound
    unfold Engine.start
    rw [hfound']
    rfl
  have hreached : Reachable s ((e.anew now st c).beginChapter now c) :=
    .call h (c := .start stage chapter) (by rw [Engine.call, hstart]; rfl)
  have hstays := Engine.stays_beginChapter (e.anew now st c) now c
  have hstatus := Engine.status_beginChapter (e.anew now st c) now c
  generalize (e.anew now st c).beginChapter now c = after at hstart hreached hstays hstatus
  have hchapter : after.currentChapter? = some c := by
    unfold Engine.currentChapter?
    rw [hreached.story_eq, hstays.stage, hstays.chapter]
    exact Story.chapter?_of_resolve hfound
  have hstarted : after.run.status ≠ .idle := by
    rw [hstatus]
    exact Status.noConfusion
  have hpath := hreached.tracked hstarted c hchapter hnodes
  obtain ⟨n, hn⟩ := Option.isSome_iff_exists.1 hpath.isSome
  refine ⟨after, _, n, hstart, ?_⟩
  rw [Engine.currentNode?, hchapter]
  exact hn

/-! ## Main result -/

/-- Where a check finds no error, the story can be started in every chapter that is there, and comes
to a node. With no chapter given that is the first one of the first stage; only if this stage has no
chapters the start is refused, and the refusal names it. -/
theorem Story.Passes.starts {s : Story} (h : s.Passes) {e : Engine} (he : Reachable s e)
    (now : Int64) :
    (∃ first rest, s.stages = first :: rest ∧
      (first.chapters ≠ [] → ∃ after heard n,
        e.start now none none = .ok (after, heard) ∧ after.currentNode? = some n) ∧
      (first.chapters = [] →
        e.start now none none = .error (.missing (.chapter first.id "<first>")))) ∧
    ∀ stage chapter st c, s.resolve stage chapter = .ok (st, c) → ∃ after heard n,
      e.start now stage chapter = .ok (after, heard) ∧ after.currentNode? = some n := by
  refine ⟨?first, fun stage chapter st c hfound =>
    he.start_of_resolve hfound (h.nodes_ne_nil_of_resolve hfound) now⟩
  obtain ⟨first, rest, hstages⟩ := List.exists_cons_of_ne_nil h.stages_ne_nil
  have hresolve := resolve_first hstages
  refine ⟨first, rest, hstages, fun hchapters => ?some, fun hnone => ?none⟩
  case some =>
    obtain ⟨c, others, hc⟩ := List.exists_cons_of_ne_nil hchapters
    rw [hc] at hresolve
    exact he.start_of_resolve hresolve (h.nodes_ne_nil_of_resolve hresolve) now
  case none =>
    rw [hnone] at hresolve
    unfold Engine.start
    rw [he.story_eq, hresolve]
    rfl

namespace Gallery

/-- A stage without chapters. -/
def attic : Stage := { id := "attic" }

/-- A stage whose only chapter is the hall that has a way out. -/
def mansion : Stage := { id := "mansion", chapters := [hallWithExit] }

/-- A story with the hall in its first stage, or in the one after a stage without chapters. -/
def estate (mansionFirst : Bool) : Story where
  stages := if mansionFirst then [mansion, attic] else [attic, mansion]

theorem passes_estate (mansionFirst : Bool) : (estate mansionFirst).Passes := by
  cases mansionFirst <;> decide +kernel

/-- The story can be started where the hall is in its first stage, and otherwise where the hall is
asked for. -/
theorem estate_starts :
    (∃ after heard n, ({ story := estate true } : Engine).start 0 none none = .ok (after, heard) ∧
      after.currentNode? = some n) ∧
    ({ story := estate false } : Engine).start 0 none none =
      .error (.missing (.chapter "attic" "<first>")) ∧
    ∃ after heard n, ({ story := estate false } : Engine).start 0 (some "mansion") (some "hall") =
      .ok (after, heard) ∧ after.currentNode? = some n := by
  refine ⟨?_, ?_, ?_⟩
  · obtain ⟨⟨first, rest, hstages, hstarts, -⟩, -⟩ :=
      Story.Passes.starts (passes_estate true) (.fresh {} 0) 0
    cases hstages
    exact hstarts (by decide)
  · obtain ⟨⟨first, rest, hstages, -, hrefused⟩, -⟩ :=
      Story.Passes.starts (passes_estate false) (.fresh {} 0) 0
    cases hstages
    exact hrefused rfl
  · obtain ⟨-, hstarts⟩ := Story.Passes.starts (passes_estate false) (.fresh {} 0) 0
    have hfound : (estate false).resolve (some "mansion") (some "hall") =
        .ok (mansion, hallWithExit) := by
      decide +kernel
    exact hstarts _ _ _ _ hfound

/-- With the stage without chapters first, the check finds no error, but there is nothing to start
with. -/
theorem not_starts_attic :
    (estate false).Passes ∧
      ¬ ∃ after heard n,
        ({ story := estate false } : Engine).start 0 none none = .ok (after, heard) ∧
          after.currentNode? = some n := by
  refine ⟨passes_estate false, ?_⟩
  rintro ⟨after, heard, n, hstart, -⟩
  cases hstart

end Gallery
end BranchingStory
