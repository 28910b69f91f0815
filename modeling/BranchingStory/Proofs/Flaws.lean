import BranchingStory.Proofs.Rereading
import BranchingStory.Terminal.Program
import Mathlib.Data.Finset.Card
import Mathlib.Data.List.Dedup
import Mathlib.Tactic.Common
/-!
# What is wrong with a story

What is reported of a story is what is wrong with it, and nothing else: every flaw once, those of a
chapter in the order of the checks, those of one check in the order of the nodes, and those of a
node in the order of its targets (`Story.reports_every_flaw_once`). Two flaws may read the same, as
when a node has a missing target twice, so a flaw is told from others by its place.
-/

namespace BranchingStory

/-! ## Lists in the order of places -/

/-- A list has the things that are wanted and no others, each of them once, in the order of their
places. A place is a list of numbers; places are ordered like words in a dictionary. -/
structure Enumerates {α : Type} (place : α → List Nat) (wanted : α → Prop) (l : List α) : Prop where
  mem_iff : ∀ a, a ∈ l ↔ wanted a
  ordered : l.Pairwise fun a b => place a < place b

namespace Enumerates

variable {α β : Type} {place : α → List Nat} {wanted wanted' : α → Prop} {l : List α}

theorem congr (h : Enumerates place wanted l) (hsame : ∀ a, wanted a ↔ wanted' a) :
    Enumerates place wanted' l :=
  ⟨fun a => (h.mem_iff a).trans (hsame a), h.ordered⟩

theorem nil (hnone : ∀ a, ¬ wanted a) : Enumerates place wanted [] :=
  ⟨fun a => ⟨fun ha => (List.not_mem_nil ha).elim, fun ha => (hnone a ha).elim⟩, .nil⟩

theorem single {a : α} (honly : ∀ b, wanted b ↔ b = a) : Enumerates place wanted [a] :=
  ⟨fun b => List.mem_singleton.trans (honly b).symm, List.pairwise_singleton ..⟩

theorem ite {p : Prop} [Decidable p] {a : α} (honly : ∀ b, wanted b ↔ p ∧ b = a) :
    Enumerates place wanted (if p then [a] else []) := by
  split
  · rename_i hp
    exact .single fun b => (honly b).trans (and_iff_right hp)
  · rename_i hp
    exact .nil fun b hb => hp ((honly b).1 hb).1

theorem filter (h : Enumerates place wanted l) (p : α → Prop) [DecidablePred p] :
    Enumerates place (fun a => wanted a ∧ p a) (l.filter p) := by
  refine ⟨fun a => ?_, h.ordered.filter _⟩
  rw [List.mem_filter, h.mem_iff, decide_eq_true_iff]

/-- Things of another kind can be made of those that are listed, as long as that keeps the order. -/
theorem map (h : Enumerates place wanted l) (place' : β → List Nat) (f : α → β)
    (hplace : ∀ a b, place a < place b → place' (f a) < place' (f b)) :
    Enumerates place' (fun b => ∃ a, wanted a ∧ f a = b) (l.map f) := by
  refine ⟨fun b => ?_, List.pairwise_map.2 (h.ordered.imp (hplace _ _))⟩
  rw [List.mem_map]
  simp only [h.mem_iff]

/-- The items of a list, numbered from 0 on. -/
theorem zipIdx (l : List α) :
    Enumerates (fun p => [p.2]) (fun p : α × Nat => l[p.2]? = some p.1) l.zipIdx := by
  refine ⟨fun p => List.mem_zipIdx_iff_getElem?, ?_⟩
  have hnumbers : (l.zipIdx.map Prod.snd).Pairwise (· < ·) := by
    rw [List.zipIdx_map_snd]
    exact List.pairwise_lt_range'
  refine (List.pairwise_map.1 hnumbers).imp fun hlt => ?_
  exact List.cons_lt_cons_iff.2 (.inl hlt)

/-- What depends on an item and on its number may be the same as what depends on the item alone. -/
theorem flatMap_zipIdx {f : α → List β} {g : α × Nat → List β} (h : ∀ p, f p.1 = g p)
    (l : List α) : l.flatMap f = l.zipIdx.flatMap g := by
  conv_lhs => rw [← List.zipIdx_map_fst 0 l, List.flatMap_map]
  exact List.flatMap_congr fun p _ => h p

/-- One list for each part, put together in the order of the parts. -/
theorem flatMap {parts : List β} {number : β → Nat} {known : β → Prop}
    (hparts : Enumerates (fun b => [number b]) known parts) (place : α → List Nat)
    {within : α → List Nat} {f : β → List α} {inPart : β → α → Prop}
    (h : ∀ b, known b → Enumerates within (inPart b) (f b))
    (hplace : ∀ b a, inPart b a → place a = number b :: within a) :
    Enumerates place (fun a => ∃ b, known b ∧ inPart b a) (parts.flatMap f) := by
  constructor
  · intro a
    rw [List.mem_flatMap]
    refine exists_congr fun b => ?_
    rw [hparts.mem_iff]
    exact and_congr_right fun hb => (h b hb).mem_iff a
  · refine List.pairwise_flatMap.2 ⟨fun b hb => ?_, ?_⟩
    · have hb := h b ((hparts.mem_iff b).1 hb)
      refine hb.ordered.imp_of_mem fun ha ha' hlt => ?_
      rw [hplace b _ ((hb.mem_iff _).1 ha), hplace b _ ((hb.mem_iff _).1 ha')]
      exact List.cons_lt_cons_iff.2 (.inr ⟨rfl, hlt⟩)
    · refine hparts.ordered.imp_of_mem fun {b b'} hb hb' hlt a ha a' ha' => ?_
      have hb := (hparts.mem_iff b).1 hb
      have hb' := (hparts.mem_iff b').1 hb'
      rw [hplace b a (((h b hb).mem_iff a).1 ha), hplace b' a' (((h b' hb').mem_iff a').1 ha')]
      rcases List.cons_lt_cons_iff.1 hlt with hnumber | ⟨-, hnone⟩
      · exact List.cons_lt_cons_iff.2 (.inl hnumber)
      · exact (List.not_lt_nil _ hnone).elim

end Enumerates

/-! ## The flaws of a chapter -/

namespace Chapter

/-- The checks of a chapter, in the order in which they are made. -/
inductive Check where
  | starts
  | endings
  | ids
  | designated
  | targets
deriving DecidableEq, Repr

/-- All checks. -/
def Check.all : List Check := [starts, endings, ids, designated, targets]

/-- The number of a check, in the order in which they are made. -/
def Check.number : Check → Nat
  | starts => 0
  | endings => 1
  | ids => 2
  | designated => 3
  | targets => 4

theorem Check.enumerates_all :
    Enumerates (fun k : Check => [k.number]) (fun _ => True) Check.all := by
  refine ⟨fun k => ?_, by decide⟩
  cases k <;> decide

/-- What can be wrong with a chapter. The numbers are that of a node in the chapter and that of a
target of the node. -/
inductive Flaw where
  | noStart
  | manyStarts (count : Nat)
  | noEnding
  | repeatedId (node : Nat) (id : String)
  | missingStart (id : String)
  | missingTarget (node turn : Nat) (id target : String)
deriving DecidableEq, Repr

namespace Flaw

/-- The check that finds a flaw. -/
def check : Flaw → Check
  | noStart | manyStarts _ => .starts
  | noEnding => .endings
  | repeatedId .. => .ids
  | missingStart _ => .designated
  | missingTarget .. => .targets

/-- Where a check finds a flaw. -/
def within : Flaw → List Nat
  | repeatedId node _ => [node]
  | missingTarget node turn .. => [node, turn]
  | noStart | manyStarts _ | noEnding | missingStart _ => []

/-- The place of a flaw among those of a chapter. -/
def place (f : Flaw) : List Nat := f.check.number :: f.within

/-- How a flaw is reported. Without a start or an ending a chapter cannot work. -/
def issue (location : String) : Flaw → Issue
  | noStart => .error location "no start node"
  | manyStarts count => .warning location s!"{count} start nodes (one is recommended)"
  | noEnding => .error location "no chapter_end node"
  | repeatedId _ id => .warning location s!"duplicate node id '{id}'"
  | missingStart id => .warning location s!"startNodeId '{id}' does not exist"
  | missingTarget _ _ id target =>
    .warning location s!"node '{id}' points to missing node '{target}'"

theorem isError_issue_iff (location : String) (f : Flaw) :
    (f.issue location).isError = true ↔ f = noStart ∨ f = noEnding := by
  cases f <;> simp [issue, Issue.error, Issue.warning]

end Flaw

/-- Whether a flaw is one of a chapter. -/
def Has (c : Chapter) : Flaw → Prop
  | .noStart => ∀ n ∈ c.nodes, n.type ≠ .start
  | .manyStarts count => 2 ≤ count ∧ count = c.nodes.countP (·.type = .start)
  | .noEnding => ∀ n ∈ c.nodes, n.type ≠ .chapterEnd
  | .repeatedId node id =>
    c.nodeIds[node]? = some id ∧ ∃ earlier < node, c.nodeIds[earlier]? = some id
  | .missingStart id => id = c.start ∧ id ≠ "" ∧ id ∉ c.nodeIds
  | .missingTarget node turn id target => target ∉ c.nodeIds ∧
    ∃ n, c.nodes[node]? = some n ∧ n.id = id ∧ n.targets[turn]? = some target

variable {c : Chapter}

/-! ## Ids that are there again -/

/-- The ids that were there before, with their numbers: what is in `rest` comes after `before`. -/
def repeats (before rest : List String) : List (String × Nat) :=
  (rest.zipIdx before.length).filter fun p => p.1 ∈ (before ++ rest).take p.2

theorem repeats_cons (before rest : List String) (id : String) :
    repeats before (id :: rest) =
      (if id ∈ before then [(id, before.length)] else []) ++ repeats (before ++ [id]) rest := by
  have hsplit : before ++ id :: rest = before ++ [id] ++ rest := by simp
  have hlength : (before ++ [id]).length = before.length + 1 := by simp
  unfold repeats
  rw [List.zipIdx_cons, List.filter_cons, hsplit, hlength]
  by_cases hid : id ∈ before <;> simp [hid]

/-- The set of ids seen so far need not be kept in order. -/
theorem duplicateIssues_eq (location : String) {earlier before : List String} (rest : List String)
    (hseen : ∀ id, id ∈ earlier ↔ id ∈ before) :
    duplicateIssues location earlier rest =
      (repeats before rest).map fun p => (Flaw.repeatedId p.2 p.1).issue location := by
  induction rest generalizing earlier before with
  | nil => rfl
  | cons id rest ih =>
    rw [repeats_cons, List.map_append]
    unfold duplicateIssues
    by_cases hid : id ∈ before
    · have hagain : ∀ other, other ∈ earlier ↔ other ∈ before ++ [id] := by
        intro other
        rw [hseen, List.mem_append, List.mem_singleton]
        exact ⟨.inl, fun h => h.elim (·) (· ▸ hid)⟩
      rw [if_pos (List.contains_iff_mem.2 ((hseen id).2 hid)), if_pos hid, ih hagain]
      rfl
    · have hnew : ∀ other, other ∈ id :: earlier ↔ other ∈ before ++ [id] := by
        intro other
        rw [List.mem_cons, hseen, List.mem_append, List.mem_singleton, or_comm]
      rw [if_neg (fun h => hid ((hseen id).1 (List.contains_iff_mem.1 h))), if_neg hid, ih hnew]
      rfl

/-- There are as many repeated ids as there are ids too many for them to be distinct. -/
theorem length_repeats (before rest : List String) :
    (repeats before rest).length + (before ++ rest).toFinset.card =
      rest.length + before.toFinset.card := by
  induction rest generalizing before with
  | nil => simp [repeats]
  | cons id rest ih =>
    have hsplit : before ++ id :: rest = before ++ [id] ++ rest := by simp
    have hinsert : (before ++ [id]).toFinset = insert id before.toFinset := by
      ext other
      simp
    have hrest := ih (before ++ [id])
    rw [hinsert] at hrest
    rw [repeats_cons, hsplit, List.length_append, List.length_cons]
    by_cases hid : id ∈ before
    · rw [Finset.card_insert_of_mem (List.mem_toFinset.2 hid)] at hrest
      rw [if_pos hid, List.length_singleton]
      omega
    · rw [Finset.card_insert_of_notMem fun h => hid (List.mem_toFinset.1 h)] at hrest
      rw [if_neg hid, List.length_nil]
      omega

/-! ## What the checks of a chapter find -/

/-- What a check finds. -/
def found (c : Chapter) : Check → List Flaw
  | .starts =>
    match c.nodes.countP (·.type = .start) with
    | 0 => [.noStart]
    | 1 => []
    | count => [.manyStarts count]
  | .endings => if ∀ n ∈ c.nodes, n.type ≠ .chapterEnd then [.noEnding] else []
  | .ids => (repeats [] c.nodeIds).map fun p => .repeatedId p.2 p.1
  | .designated => if c.start ≠ "" ∧ c.start ∉ c.nodeIds then [.missingStart c.start] else []
  | .targets =>
    c.nodes.zipIdx.flatMap fun n =>
      (n.1.targets.zipIdx.filter (·.1 ∉ c.nodeIds)).map fun target =>
        .missingTarget n.2 target.2 n.1.id target.1

/-- The flaws of a chapter, in the order in which they are found. -/
def flaws (c : Chapter) : List Flaw := Check.all.flatMap c.found

theorem check_starts_iff {f : Flaw} : f.check = .starts ∧ c.Has f ↔
    (f = .noStart ∧ c.nodes.countP (·.type = .start) = 0) ∨
      ∃ count, f = .manyStarts count ∧ 2 ≤ count ∧ count = c.nodes.countP (·.type = .start) := by
  have hnone : (∀ n ∈ c.nodes, n.type ≠ .start) ↔ c.nodes.countP (·.type = .start) = 0 := by
    simp [List.countP_eq_zero]
  constructor
  · rintro ⟨hcheck, hf⟩
    cases f with
    | noStart => exact .inl ⟨rfl, hnone.1 hf⟩
    | manyStarts count => exact .inr ⟨count, rfl, hf⟩
    | _ => cases hcheck
  · rintro (⟨rfl, hzero⟩ | ⟨count, rfl, hmany⟩)
    · exact ⟨rfl, hnone.2 hzero⟩
    · exact ⟨rfl, hmany⟩

theorem enumerates_starts :
    Enumerates Flaw.within (fun f => f.check = .starts ∧ c.Has f) (c.found .starts) := by
  dsimp only [found]
  split
  · rename_i hcount
    refine .single fun f => ?_
    rw [check_starts_iff, hcount]
    simp
  · rename_i hcount
    refine .nil fun f => ?_
    rw [check_starts_iff, hcount]
    simp
  · rename_i count hzero hone
    refine .single fun f => ?_
    have htwo : 2 ≤ c.nodes.countP (·.type = .start) :=
      (Nat.two_le_iff _).2 ⟨hzero, hone⟩
    rw [check_starts_iff]
    constructor
    · rintro (⟨-, hnone⟩ | ⟨_, rfl, -, rfl⟩)
      · exact (hzero hnone).elim
      · rfl
    · rintro rfl
      exact .inr ⟨_, rfl, htwo, rfl⟩

theorem enumerates_endings :
    Enumerates Flaw.within (fun f => f.check = .endings ∧ c.Has f) (c.found .endings) := by
  refine .ite fun f => ?_
  constructor
  · rintro ⟨hcheck, hf⟩
    cases f with
    | noEnding => exact ⟨hf, rfl⟩
    | _ => cases hcheck
  · rintro ⟨hnone, rfl⟩
    exact ⟨rfl, hnone⟩

theorem enumerates_designated :
    Enumerates Flaw.within (fun f => f.check = .designated ∧ c.Has f) (c.found .designated) := by
  refine .ite fun f => ?_
  constructor
  · rintro ⟨hcheck, hf⟩
    cases f with
    | missingStart id =>
      obtain ⟨rfl, hmissing⟩ := hf
      exact ⟨hmissing, rfl⟩
    | _ => cases hcheck
  · rintro ⟨hmissing, rfl⟩
    exact ⟨rfl, rfl, hmissing⟩

theorem mem_take_iff_getElem? {ids : List String} {id : String} {count : Nat} :
    id ∈ ids.take count ↔ ∃ earlier < count, ids[earlier]? = some id := by
  rw [List.mem_iff_getElem?]
  refine exists_congr fun earlier => ?_
  rw [List.getElem?_take]
  split <;> simp [*]

theorem enumerates_ids :
    Enumerates Flaw.within (fun f => f.check = .ids ∧ c.Has f) (c.found .ids) := by
  have hrepeats := ((Enumerates.zipIdx c.nodeIds).filter fun p => p.1 ∈ c.nodeIds.take p.2).map
    Flaw.within (fun p => .repeatedId p.2 p.1) fun _ _ hlt => hlt
  refine hrepeats.congr fun f => ?_
  constructor
  · rintro ⟨⟨id, node⟩, ⟨hid, hearlier⟩, rfl⟩
    exact ⟨rfl, hid, mem_take_iff_getElem?.1 hearlier⟩
  · rintro ⟨hcheck, hf⟩
    cases f with
    | repeatedId node id => exact ⟨(id, node), ⟨hf.1, mem_take_iff_getElem?.2 hf.2⟩, rfl⟩
    | _ => cases hcheck

theorem enumerates_targets :
    Enumerates Flaw.within (fun f => f.check = .targets ∧ c.Has f) (c.found .targets) := by
  have hnode (n : Node × Nat) := ((Enumerates.zipIdx n.1.targets).filter (·.1 ∉ c.nodeIds)).map
    (fun f : Flaw => f.within.drop 1)
    (fun target => Flaw.missingTarget n.2 target.2 n.1.id target.1) fun _ _ hlt => hlt
  have hnodes := (Enumerates.zipIdx c.nodes).flatMap Flaw.within (fun n _ => hnode n) (by
    rintro n _ ⟨target, -, rfl⟩
    rfl)
  refine hnodes.congr fun f => ?_
  constructor
  · rintro ⟨⟨n, node⟩, hn, ⟨target, turn⟩, ⟨hturn, hmissing⟩, rfl⟩
    exact ⟨rfl, hmissing, n, hn, rfl, hturn⟩
  · rintro ⟨hcheck, hf⟩
    cases f with
    | missingTarget node turn id target =>
      obtain ⟨hmissing, n, hn, rfl, hturn⟩ := hf
      exact ⟨(n, node), hn, (target, turn), ⟨hturn, hmissing⟩, rfl⟩
    | _ => cases hcheck

theorem enumerates_found (c : Chapter) :
    ∀ k, Enumerates Flaw.within (fun f => f.check = k ∧ c.Has f) (c.found k)
  | .starts => enumerates_starts
  | .endings => enumerates_endings
  | .ids => enumerates_ids
  | .designated => enumerates_designated
  | .targets => enumerates_targets

/-- Every flaw of a chapter is found once. -/
theorem enumerates_flaws (c : Chapter) : Enumerates Flaw.place c.Has c.flaws := by
  have hall := Check.enumerates_all.flatMap Flaw.place (fun k _ => c.enumerates_found k)
    fun k f hf => by rw [Flaw.place, hf.1]
  exact hall.congr fun f => ⟨fun ⟨_, _, hf⟩ => hf.2, fun hf => ⟨f.check, trivial, rfl, hf⟩⟩

/-- Only one of the checks finds ids that are there again. -/
theorem countP_flaws (c : Chapter) : c.flaws.countP (·.check = .ids) = (c.found .ids).length := by
  have hcheck (k : Check) (f : Flaw) (hf : f ∈ c.found k) : f.check = k :=
    (((c.enumerates_found k).mem_iff f).1 hf).1
  have hother (k : Check) (hk : k ≠ .ids) : (c.found k).countP (·.check = .ids) = 0 := by
    refine List.countP_eq_zero.2 fun f hf => ?_
    rw [hcheck k f hf, decide_eq_true_iff]
    exact hk
  have hids : (c.found .ids).countP (·.check = .ids) = (c.found .ids).length :=
    List.countP_eq_length.2 fun f hf => decide_eq_true (hcheck .ids f hf)
  simp [flaws, Check.all, List.countP_append, hother, hids]

/-- There are as many repeated ids as there are nodes too many for the ids to be distinct. -/
theorem repeated_add_distinct (c : Chapter) :
    c.flaws.countP (·.check = .ids) + c.nodeIds.toFinset.card = c.nodes.length := by
  have hlength := length_repeats [] c.nodeIds
  rw [countP_flaws, found, List.length_map]
  simpa [nodeIds] using hlength

/-! ## What is reported of a chapter -/

section Reports

variable {location : String}

theorem startIssues_eq : c.startIssues location = (c.found .starts).map (·.issue location) := by
  have hcount : (c.nodesOfType .start).length = c.nodes.countP (·.type = .start) :=
    List.countP_eq_length_filter.symm
  dsimp only [startIssues, found]
  rw [hcount]
  generalize c.nodes.countP (·.type = .start) = count
  rcases count with _ | _ | count <;> rfl

theorem endIssues_eq : c.endIssues location = (c.found .endings).map (·.issue location) := by
  have hnone : (c.nodesOfType .chapterEnd).isEmpty ↔ ∀ n ∈ c.nodes, n.type ≠ .chapterEnd := by
    simp [nodesOfType]
  unfold endIssues found
  by_cases h : ∀ n ∈ c.nodes, n.type ≠ .chapterEnd
  · rw [if_pos (hnone.2 h), if_pos h]
    rfl
  · rw [if_neg (fun he => h (hnone.1 he)), if_neg h]
    rfl

theorem designatedStartIssues_eq :
    c.designatedStartIssues location = (c.found .designated).map (·.issue location) := by
  unfold designatedStartIssues found
  split <;> rfl

theorem idIssues_eq :
    duplicateIssues location [] c.nodeIds = (c.found .ids).map (·.issue location) := by
  rw [duplicateIssues_eq location c.nodeIds fun _ => Iff.rfl, found, List.map_map]
  rfl

theorem targetIssues_eq :
    c.nodes.flatMap (c.danglingIssues location) = (c.found .targets).map (·.issue location) := by
  rw [found, List.map_flatMap]
  refine Enumerates.flatMap_zipIdx (fun p => ?_) _
  unfold danglingIssues
  conv_lhs => rw [← List.zipIdx_map_fst 0 p.1.targets, List.filter_map]
  rw [List.map_map, List.map_map]
  rfl

end Reports

/-- Where the issues of a chapter are said to be. -/
def location (c : Chapter) (stageTitle : String) : String :=
  s!"stage '{stageTitle}' / chapter '{c.title}'"

/-- The flaws of a chapter are reported one by one. -/
theorem issues_eq (c : Chapter) (stageTitle : String) :
    c.issues stageTitle = c.flaws.map (·.issue (c.location stageTitle)) := by
  have hall : c.flaws = c.found .starts ++ c.found .endings ++ c.found .ids ++ c.found .designated
      ++ c.found .targets := by
    simp [flaws, Check.all]
  rw [hall]
  simp only [List.map_append, ← startIssues_eq, ← endIssues_eq, ← idIssues_eq,
    ← designatedStartIssues_eq, ← targetIssues_eq]
  rfl

end Chapter

/-! ## The flaws of a story -/

/-- What can be wrong with a story. The numbers are those of a stage and of a chapter in it. -/
inductive Story.Flaw where
  | noStages (name : String)
  | noChapters (stage : Nat) (title : String)
  | inChapter (stage chapter : Nat) (location : String) (flaw : Chapter.Flaw)
deriving DecidableEq, Repr

namespace Story.Flaw

/-- The place of a flaw in a story. -/
def place : Flaw → List Nat
  | noStages _ => []
  | noChapters stage _ => [stage]
  | inChapter stage chapter _ flaw => stage :: chapter :: flaw.place

/-- How a flaw is reported. -/
def issue : Flaw → Issue
  | noStages name => .error s!"project '{name}'" "no stages defined"
  | noChapters _ title => .warning s!"stage '{title}'" "no chapters defined"
  | inChapter _ _ location flaw => flaw.issue location

end Story.Flaw

namespace Stage

/-- Whether a flaw is one of the stage with a number. -/
def Has (st : Stage) (number : Nat) : Story.Flaw → Prop
  | .noStages _ => False
  | .noChapters stage title => stage = number ∧ st.chapters = [] ∧ title = st.title
  | .inChapter stage chapter location flaw => stage = number ∧ ∃ c,
    st.chapters[chapter]? = some c ∧ location = c.location st.title ∧ c.Has flaw

/-- The flaws of the stage with a number, in the order in which they are found. -/
def flaws (st : Stage) (number : Nat) : List Story.Flaw :=
  if st.chapters = [] then [.noChapters number st.title]
  else st.chapters.zipIdx.flatMap fun c =>
    c.1.flaws.map (.inChapter number c.2 (c.1.location st.title))

theorem enumerates_flaws (st : Stage) (number : Nat) :
    Enumerates (fun f => f.place.drop 1) (st.Has number) (st.flaws number) := by
  unfold flaws
  split
  · rename_i hnone
    refine .single fun f => ?_
    constructor
    · intro hf
      cases f with
      | noStages name => exact hf.elim
      | noChapters stage title =>
        obtain ⟨rfl, -, rfl⟩ := hf
        rfl
      | inChapter stage chapter location flaw =>
        obtain ⟨-, c, hc, -⟩ := hf
        rw [hnone] at hc
        cases hc
    · rintro rfl
      exact ⟨rfl, hnone, rfl⟩
  · rename_i hsome
    have hchapter (c : Chapter × Nat) := c.1.enumerates_flaws.map (fun f => f.place.drop 2)
      (Story.Flaw.inChapter number c.2 (c.1.location st.title)) fun _ _ hlt => hlt
    have hchapters := (Enumerates.zipIdx st.chapters).flatMap (fun f => f.place.drop 1)
      (fun c _ => hchapter c) (by
        rintro c _ ⟨flaw, -, rfl⟩
        rfl)
    refine hchapters.congr fun f => ?_
    constructor
    · rintro ⟨c, hc, flaw, hflaw, rfl⟩
      exact ⟨rfl, c.1, hc, rfl, hflaw⟩
    · intro hf
      cases f with
      | noStages name => exact hf.elim
      | noChapters stage title => exact (hsome hf.2.1).elim
      | inChapter stage chapter location flaw =>
        obtain ⟨rfl, c, hc, rfl, hflaw⟩ := hf
        exact ⟨(c, chapter), hc, flaw, hflaw, rfl⟩

theorem issues_eq (st : Stage) (number : Nat) :
    st.issues = (st.flaws number).map (·.issue) := by
  unfold issues flaws
  by_cases hnone : st.chapters = []
  · rw [if_pos (List.isEmpty_iff.2 hnone), if_pos hnone]
    rfl
  · rw [if_neg (fun h => hnone (List.isEmpty_iff.1 h)), if_neg hnone, List.map_flatMap]
    refine Enumerates.flatMap_zipIdx (fun c => ?_) _
    rw [Chapter.issues_eq, List.map_map]
    rfl

end Stage

namespace Story

/-- Whether a flaw is one of a story. -/
def Has (s : Story) : Flaw → Prop
  | .noStages name => s.stages = [] ∧ name = s.name
  | .noChapters stage title => ∃ st,
    s.stages[stage]? = some st ∧ st.chapters = [] ∧ title = st.title
  | .inChapter stage chapter location flaw => ∃ st c, s.stages[stage]? = some st ∧
    st.chapters[chapter]? = some c ∧ location = c.location st.title ∧ c.Has flaw

/-- The flaws of a story, in the order in which they are found. -/
def flaws (s : Story) : List Flaw :=
  if s.stages = [] then [.noStages s.name]
  else s.stages.zipIdx.flatMap fun st => st.1.flaws st.2

/-- Every flaw of a story is found once. -/
theorem enumerates_flaws (s : Story) : Enumerates Flaw.place s.Has s.flaws := by
  unfold flaws
  split
  · rename_i hnone
    refine .single fun f => ?_
    constructor
    · intro hf
      cases f with
      | noStages name =>
        obtain ⟨-, rfl⟩ := hf
        rfl
      | noChapters stage title =>
        obtain ⟨st, hst, -⟩ := hf
        rw [hnone] at hst
        cases hst
      | inChapter stage chapter location flaw =>
        obtain ⟨st, c, hst, -⟩ := hf
        rw [hnone] at hst
        cases hst
    · rintro rfl
      exact ⟨hnone, rfl⟩
  · rename_i hsome
    have hstages := (Enumerates.zipIdx s.stages).flatMap Flaw.place
      (fun st _ => st.1.enumerates_flaws st.2) (by
        intro st f hf
        cases f with
        | noStages name => exact hf.elim
        | noChapters | inChapter =>
          obtain ⟨rfl, -⟩ := hf
          rfl)
    refine hstages.congr fun f => ?_
    constructor
    · rintro ⟨st, hst, hf⟩
      cases f with
      | noStages name => exact hf.elim
      | noChapters stage title =>
        obtain ⟨rfl, hf⟩ := hf
        exact ⟨st.1, hst, hf⟩
      | inChapter stage chapter location flaw =>
        obtain ⟨rfl, c, hf⟩ := hf
        exact ⟨st.1, c, hst, hf⟩
    · intro hf
      cases f with
      | noStages name => exact (hsome hf.1).elim
      | noChapters stage title =>
        obtain ⟨st, hst, hf⟩ := hf
        exact ⟨(st, stage), hst, rfl, hf⟩
      | inChapter stage chapter location flaw =>
        obtain ⟨st, c, hst, hf⟩ := hf
        exact ⟨(st, stage), hst, rfl, c, hf⟩

/-- The flaws of a story are reported one by one. -/
theorem issues_eq (s : Story) : s.issues = s.flaws.map (·.issue) := by
  unfold issues flaws
  by_cases hnone : s.stages = []
  · rw [if_pos (List.isEmpty_iff.2 hnone), if_pos hnone]
    rfl
  · rw [if_neg (fun h => hnone (List.isEmpty_iff.1 h)), if_neg hnone, List.map_flatMap]
    exact Enumerates.flatMap_zipIdx (fun st => st.1.issues_eq st.2) _

/-! ## Errors -/

/-- A story is broken if it has no stages, or a chapter without a start node or without an end. -/
def Broken (s : Story) : Prop :=
  s.stages = [] ∨ ∃ st ∈ s.stages, ∃ c ∈ st.chapters,
    (∀ n ∈ c.nodes, n.type ≠ .start) ∨ ∀ n ∈ c.nodes, n.type ≠ .chapterEnd

theorem mem_issues_iff {s : Story} {i : Issue} : i ∈ s.issues ↔ ∃ f, s.Has f ∧ f.issue = i := by
  rw [issues_eq, List.mem_map]
  simp only [s.enumerates_flaws.mem_iff]

/-- Errors are for stories that are broken. -/
theorem error_iff_broken (s : Story) : (∃ i ∈ s.issues, i.isError = true) ↔ s.Broken := by
  constructor
  · rintro ⟨i, hi, herror⟩
    obtain ⟨f, hf, rfl⟩ := mem_issues_iff.1 hi
    cases f with
    | noStages name => exact .inl hf.1
    | noChapters stage title => cases herror
    | inChapter stage chapter location flaw =>
      obtain ⟨st, c, hst, hc, -, hflaw⟩ := hf
      refine .inr ⟨st, List.mem_of_getElem? hst, c, List.mem_of_getElem? hc, ?_⟩
      rcases (flaw.isError_issue_iff location).1 herror with rfl | rfl
      · exact .inl hflaw
      · exact .inr hflaw
  · rintro (hnone | ⟨st, hst, c, hc, hlacks⟩)
    · exact ⟨_, mem_issues_iff.2 ⟨.noStages s.name, ⟨hnone, rfl⟩, rfl⟩, rfl⟩
    · obtain ⟨stage, hst⟩ := List.mem_iff_getElem?.1 hst
      obtain ⟨chapter, hc⟩ := List.mem_iff_getElem?.1 hc
      have hreported (flaw : Chapter.Flaw) (hflaw : c.Has flaw) :
          flaw.issue (c.location st.title) ∈ s.issues :=
        mem_issues_iff.2 ⟨.inChapter stage chapter _ flaw, ⟨st, c, hst, hc, rfl, hflaw⟩, rfl⟩
      rcases hlacks with hstart | hending
      · exact ⟨_, hreported .noStart hstart, rfl⟩
      · exact ⟨_, hreported .noEnding hending, rfl⟩

end Story

namespace Terminal

theorem code_checkStory (s : Story) :
    (checkStory s).code ≠ 0 ↔ ∃ i ∈ s.issues, i.isError = true := by
  have herrors : 0 < (s.issues.filter (·.isError)).length ↔ ∃ i ∈ s.issues, i.isError = true := by
    simp [List.length_pos_iff, List.filter_eq_nil_iff]
  rw [← herrors]
  unfold checkStory
  dsimp only
  split
  · rename_i hsome
    have hcode : (1 : UInt8) ≠ 0 := by decide
    exact ⟨fun _ => hsome, fun _ => hcode⟩
  · rename_i hnone
    exact ⟨fun hcode => (hcode rfl).elim, fun hsome => (hnone hsome).elim⟩

/-- What the program does when it is to check a story. -/
theorem Desk.run_check {d : Desk} {args : List String} {file text : String} {s : Story}
    (hargs : Task.ofArguments? args = some (.check file)) (hread : d.read file = .ok text)
    (hparse : Story.parse text = .ok s) (input : String) (now : Int64) :
    d.run args input now = checkStory s := by
  have hread : d.read (Task.check file).file = .ok text := hread
  have hstory : readStory (Task.check file).file (.ok text) = .ok s := by
    dsimp only [readStory]
    rw [hparse]
  unfold Desk.run
  rw [hargs]
  dsimp only
  rw [hread]
  unfold Task.begin
  dsimp only [Except.mapError]
  rw [hstory]

end Terminal

/-! ## What a check reports -/

/-- The check of a story finds an error, and the program that checks it fails, just if the story is
broken. What is reported of a story, and what is reported of a chapter of it, is one issue for each
flaw, in the order of their places, and nothing else; an id is reported as often as there are nodes
with it beyond the first. -/
theorem Story.reports_every_flaw_once (s : Story) :
    ((∃ i ∈ s.issues, i.isError = true) ↔ s.Broken) ∧
    (∀ (d : Terminal.Desk) (args : List String) (file text input : String) (now : Int64),
      Terminal.Task.ofArguments? args = some (.check file) → d.read file = .ok text →
      Story.parse text = .ok s → ((d.run args input now).code ≠ 0 ↔ s.Broken)) ∧
    (∃ flaws, s.issues = flaws.map (·.issue) ∧ Enumerates Flaw.place s.Has flaws) ∧
    ∀ st ∈ s.stages, ∀ c ∈ st.chapters, ∃ flaws,
      c.issues st.title = flaws.map (·.issue (c.location st.title)) ∧
      Enumerates Chapter.Flaw.place c.Has flaws ∧
      flaws.countP (·.check = .ids) + c.nodeIds.toFinset.card = c.nodes.length := by
  refine ⟨s.error_iff_broken, ?_, ⟨s.flaws, s.issues_eq, s.enumerates_flaws⟩, ?_⟩
  · intro d args file text input now hargs hread hparse
    rw [Terminal.Desk.run_check hargs hread hparse, Terminal.code_checkStory]
    exact s.error_iff_broken
  · intro st _ c _
    exact ⟨c.flaws, c.issues_eq st.title, c.enumerates_flaws, c.repeated_add_distinct⟩

namespace Scraps

/-- A chapter with two start nodes that share an id, no end, and a node with two ways out that lead
nowhere. -/
def chapter : Chapter where
  id := "draft"
  title := "Draft"
  start := "opening"
  nodes := [
    { id := "first", next := some "fork", kind := .start },
    { id := "first", next := some "fork", kind := .start },
    { id := "fork", next := some "gone",
      kind := .choice [
        { id := "back", next := some "first" },
        { id := "on", next := some "gone" }] }]

/-- A story with nothing but scraps in it. -/
def story : Story where
  name := "Scraps"
  stages := [{ id := "heap", title := "Heap", chapters := [chapter] }, { id := "rest" }]

open Terminal in
/-- The desk where the story lies. -/
def desk : Desk where
  files := [(["tmp", "desk", "scraps.json"], story.text)]

theorem parse_text : Story.parse story.text = .ok story := by
  have hfits : Story.form.outline.fits story.toJson := by decide +kernel
  have hdepth : story.toJson.depth ≤ Json.maxDepth := by decide +kernel
  have hnumbers : story.toJson.reals = [] := by decide +kernel
  have hread : Json.read Story.form.outline story.text = .ok story.toJson :=
    Json.read_indented_of_reread (by exact trivial) hfits hdepth (by simp [hnumbers])
  rw [Story.parse, Json.Form.parse, hread]
  decide +kernel

theorem read_scraps : desk.read "scraps.json" = .ok story.text := by
  have hlocate : desk.locate "scraps.json" = .ok (["tmp", "desk"], some "scraps.json") := by
    decide +kernel
  have hbelow : Terminal.Desk.below ["tmp", "desk"] "scraps.json" =
      .ok ["tmp", "desk", "scraps.json"] := by
    decide +kernel
  have htext : desk.text? ["tmp", "desk", "scraps.json"] = some story.text := by
    simp [Terminal.Desk.text?, desk]
  have hslash : Terminal.endsInSlash "scraps.json" = false := by decide +kernel
  unfold Terminal.Desk.read
  rw [hlocate]
  simp [Except.bind, bind, pure, Except.pure, hbelow, htext, hslash]

open Terminal in
/-- All that is wrong with the scraps. -/
theorem reports_every_flaw_once_scraps :
    (∃ i ∈ story.issues, i.isError = true) ∧
      (desk.run ["check", "scraps.json"] "" 0).code ≠ 0 ∧
      story.issues.map (·.message) = [
        "2 start nodes (one is recommended)", "no chapter_end node", "duplicate node id 'first'",
        "startNodeId 'opening' does not exist", "node 'fork' points to missing node 'gone'",
        "node 'fork' points to missing node 'gone'", "no chapters defined"] ∧
      ∃ flaws : List Chapter.Flaw,
        chapter.issues "Heap" = flaws.map (·.issue (chapter.location "Heap")) ∧
        flaws.countP (·.check = .ids) + 2 = 3 := by
  have hbroken : story.Broken := by
    refine .inr ⟨_, .head _, chapter, .head _, .inr ?_⟩
    decide
  have hargs : Task.ofArguments? ["check", "scraps.json"] = some (.check "scraps.json") := by
    decide +kernel
  obtain ⟨herror, hcode, -, hchapters⟩ := story.reports_every_flaw_once
  obtain ⟨flaws, hissues, -, hcount⟩ := hchapters _ (.head _) chapter (.head _)
  refine ⟨herror.2 hbroken, (hcode desk _ _ _ "" 0 hargs read_scraps parse_text).2 hbroken, ?_,
    flaws, hissues, ?_⟩
  · decide +kernel
  · have hids : chapter.nodeIds.toFinset.card = 2 := by decide
    have hnodes : chapter.nodes.length = 3 := by rfl
    omega

end Scraps

end BranchingStory
