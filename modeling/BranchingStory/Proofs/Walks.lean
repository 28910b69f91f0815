import BranchingStory.Proofs.Runs
import Mathlib
/-!
# The walk without a limit

What a node does when it is entered, in the words of a story rather than of a program, and the walk
that follows nodes as long as they lead on at once. That walk may never end. `Engine.walkFrom` is
the same walk, cut off after as many nodes as the settings allow.
-/

namespace BranchingStory

/-- What a node does once its effects have been applied, and the node that it leads to at once. -/
inductive Node.Acts (n : Node) (now : Int64) (e : Engine) : Engine → Option String → Prop
  | start {next : String} (hkind : n.kind = .start) (hnext : n.next? = some next) :
    Acts n now e e (some next)
  | startOnly (hkind : n.kind = .start) (hnext : n.next? = none) :
    Acts n now e (e.record (Engine.nodeBeat n now)) none
  | operations {list : List Operation} (hkind : n.kind = .operations list) :
    Acts n now e { e with run.store := list.foldl Store.execute e.run.store } n.next?
  /-- The first branch that holds is taken, even if it leads nowhere. -/
  | branch {before after : List Branch} {taken : Branch} {otherwise : Option String}
      (hkind : n.kind = .condition (before ++ taken :: after) otherwise)
      (hbefore : ∀ b ∈ before, ¬ e.holds b.condition) (htaken : e.holds taken.condition) :
    Acts n now e e taken.target?
  | otherwise {branches : List Branch} {otherwise : Option String}
      (hkind : n.kind = .condition branches otherwise)
      (hnone : ∀ b ∈ branches, ¬ e.holds b.condition) : Acts n now e e (given otherwise)
  | script {code : Option String} (hkind : n.kind = .script code) : Acts n now e e n.next?
  | noImage (hkind : n.kind = .image none) : Acts n now e e n.next?
  | image {d : ImageDirective} (hkind : n.kind = .image (some d))
      (hgoes : n.next? = none ∨ d.picture.hasEntrance = false ∨ d.picture.duration.getD 0 = 0) :
    Acts n now e ((e.direct now n.id d).record (Engine.imageBeat n d now)) n.next?
  /-- The story waits until the image has come in. -/
  | entrance {d : ImageDirective} {next : String} (hkind : n.kind = .image (some d))
      (hnext : n.next? = some next) (hentrance : d.picture.hasEntrance)
      (hduration : 0 < d.picture.duration.getD 0) :
    Acts n now e
      (((e.direct now n.id d).record (Engine.imageBeat n d now)).schedule
        (dueAfter now (d.picture.duration.getD 0)) (.moveOn next)) none
  | stop (hkind : n.type ∈
      [.dialogue, .choice, .battle, .shop, .event, .chapterEnd, .custom]) :
    Acts n now e (e.record (Engine.nodeBeat n now)) none

/-- The engine with the effects of entering a node. -/
def Engine.affected (e : Engine) (n : Node) : Engine :=
  { e with run.store := n.onEnter.elim e.run.store e.run.store.applyEffects }

/-- One node is entered: the engine and the node that is to be entered next, before and after. -/
inductive GoesOn (now : Int64) (chapter : Chapter) :
    Engine × Option String → Engine × Option String → Prop
  | mk {e e' : Engine} {id : String} {n : Node} {onward : Option String}
      (hnode : chapter.node? id = some n)
      (hacts : n.Acts now ((e.atNode id).affected n) e' onward) :
    GoesOn now chapter (e, some id) (e', onward)

/-- So many nodes are entered, one after the other. -/
inductive GoesFor (now : Int64) (chapter : Chapter) :
    Nat → Engine × Option String → Engine × Option String → Prop
  | refl (a : Engine × Option String) : GoesFor now chapter 0 a a
  | head {k : Nat} {a b c : Engine × Option String} (h : GoesOn now chapter a b)
      (hrest : GoesFor now chapter k b c) : GoesFor now chapter (k + 1) a c

/-- How many nodes are entered when there is no limit. -/
noncomputable def entries (now : Int64) (chapter : Chapter) (a : Engine × Option String) : ℕ∞ :=
  ⨆ k ∈ {k : ℕ | ∃ b, GoesFor now chapter k a b}, (k : ℕ∞)

/-! ## Entering a node -/

namespace Engine

variable {e e' : Engine} {now : Int64} {n : Node} {onward : Option String}

/-- Entering a node applies its effects first. -/
theorem enter_affected (e : Engine) (now : Int64) (n : Node) :
    e.enter now n = (e.affected n).enter now { n with onEnter := none } := by
  obtain ⟨id, next, speaker, text, onEnter, kind⟩ := n
  cases onEnter <;> rfl

theorem branchTarget?_of_holds {before after : List Branch} {taken : Branch}
    (hbefore : ∀ b ∈ before, ¬ e.holds b.condition) (htaken : e.holds taken.condition)
    (otherwise : Option String) :
    e.branchTarget? (before ++ taken :: after) otherwise = taken.target? := by
  have hfirst : (before.find? fun b => e.holds b.condition) = none := List.find?_eq_none.2 hbefore
  unfold branchTarget?
  rw [List.find?_append, hfirst, Option.none_or, List.find?_cons, htaken]

theorem branchTarget?_of_none {branches : List Branch}
    (hnone : ∀ b ∈ branches, ¬ e.holds b.condition) (otherwise : Option String) :
    e.branchTarget? branches otherwise = given otherwise := by
  unfold branchTarget?
  rw [List.find?_eq_none.2 hnone]

theorem enterImage_of_goes {d : ImageDirective}
    (hgoes : n.next? = none ∨ d.picture.hasEntrance = false ∨ d.picture.duration.getD 0 = 0) :
    e.enterImage now n d = ((e.direct now n.id d).record (imageBeat n d now), n.next?) := by
  unfold enterImage
  cases hnext : n.next? with
  | none => rfl
  | some next =>
    have hnot : ¬ (d.picture.hasEntrance ∧ d.picture.duration.getD 0 > 0) := by
      rintro ⟨hentrance, hduration⟩
      rcases hgoes with hnone | hplain | hzero
      · rw [hnone] at hnext
        cases hnext
      · rw [hplain] at hentrance
        cases hentrance
      · rw [hzero] at hduration
        exact absurd hduration (by decide)
    exact if_neg hnot

theorem enterImage_of_waits {d : ImageDirective} {next : String} (hnext : n.next? = some next)
    (hentrance : d.picture.hasEntrance) (hduration : 0 < d.picture.duration.getD 0) :
    e.enterImage now n d =
      (((e.direct now n.id d).record (imageBeat n d now)).schedule
        (dueAfter now (d.picture.duration.getD 0)) (.moveOn next), none) := by
  unfold enterImage
  rw [hnext]
  exact if_pos ⟨hentrance, hduration⟩

/-- What a node does is what comes of entering it. -/
theorem eq_enter_of_acts (h : n.Acts now e e' onward) :
    e.enter now { n with onEnter := none } = (e', onward) := by
  obtain ⟨id, next, speaker, text, onEnter, kind⟩ := n
  cases h with
  | start hkind hnext =>
    cases hkind
    unfold enter
    dsimp only [Node.next?] at hnext ⊢
    rw [hnext]
  | startOnly hkind hnext =>
    cases hkind
    unfold enter
    dsimp only [Node.next?] at hnext ⊢
    rw [hnext]
    rfl
  | operations hkind => cases hkind; rfl
  | branch hkind hbefore htaken =>
    cases hkind
    exact congrArg (Prod.mk e) (branchTarget?_of_holds hbefore htaken _)
  | otherwise hkind hnone =>
    cases hkind
    exact congrArg (Prod.mk e) (branchTarget?_of_none hnone _)
  | script hkind => cases hkind; rfl
  | noImage hkind => cases hkind; rfl
  | image hkind hgoes => cases hkind; exact enterImage_of_goes hgoes
  | entrance hkind hnext hentrance hduration =>
    cases hkind
    exact enterImage_of_waits hnext hentrance hduration
  | stop hkind =>
    cases kind with
    | dialogue | choice | battle | shop | event | chapterEnd | custom => rfl
    | start | operations | condition | image | script => simp [Node.type, NodeKind.type] at hkind

/-- Every node does something, and it leads somewhere or not. -/
theorem exists_acts (e : Engine) (now : Int64) (n : Node) :
    ∃ e' onward, n.Acts now e e' onward := by
  cases hkind : n.kind with
  | start =>
    cases hnext : n.next? with
    | none => exact ⟨_, _, .startOnly hkind hnext⟩
    | some next => exact ⟨_, _, .start hkind hnext⟩
  | operations list => exact ⟨_, _, .operations hkind⟩
  | condition branches otherwise =>
    by_cases hnone : ∀ b ∈ branches, ¬ e.holds b.condition
    · exact ⟨_, _, .otherwise hkind hnone⟩
    · cases hfind : branches.find? fun b => e.holds b.condition with
      | none => exact absurd (List.find?_eq_none.1 hfind) hnone
      | some taken =>
        obtain ⟨htaken, before, after, rfl, hbefore⟩ := List.find?_eq_some_iff_append.1 hfind
        exact ⟨_, _, .branch hkind (fun b hb => by simpa using hbefore b hb) htaken⟩
  | image d =>
    cases d with
    | none => exact ⟨_, _, .noImage hkind⟩
    | some d =>
      by_cases hgoes : n.next? = none ∨ d.picture.hasEntrance = false ∨
          d.picture.duration.getD 0 = 0
      · exact ⟨_, _, .image hkind hgoes⟩
      · simp only [not_or, Bool.not_eq_false] at hgoes
        obtain ⟨hnext, hentrance, hduration⟩ := hgoes
        obtain ⟨next, hnext⟩ := Option.ne_none_iff_exists'.1 hnext
        exact ⟨_, _, .entrance hkind hnext hentrance (UInt64.pos_iff_ne_zero.2 hduration)⟩
  | script code => exact ⟨_, _, .script hkind⟩
  | _ => exact ⟨_, _, .stop (by simp [Node.type, hkind, NodeKind.type])⟩

theorem acts_iff : n.Acts now (e.affected n) e' onward ↔ e.enter now n = (e', onward) := by
  rw [enter_affected]
  refine ⟨eq_enter_of_acts, fun h => ?_⟩
  obtain ⟨e'', onward', hacts⟩ := exists_acts (e.affected n) now n
  obtain ⟨rfl, rfl⟩ := Prod.mk.inj ((eq_enter_of_acts hacts).symm.trans h)
  exact hacts

end Engine

/-! ## Walking -/

section
variable {now : Int64} {chapter : Chapter} {a b c : Engine × Option String}

theorem GoesOn.of_enter {e e' : Engine} {id : String} {n : Node} {onward : Option String}
    (hnode : chapter.node? id = some n) (h : (e.atNode id).enter now n = (e', onward)) :
    GoesOn now chapter (e, some id) (e', onward) :=
  .mk hnode (Engine.acts_iff.2 h)

/-- A walk goes on in one way only. -/
theorem GoesOn.eq (h : GoesOn now chapter a b) (h' : GoesOn now chapter a c) : b = c := by
  obtain ⟨hnode, hacts⟩ := h
  obtain ⟨hnode', hacts'⟩ := h'
  obtain rfl := Option.some.inj (hnode.symm.trans hnode')
  exact (Engine.acts_iff.1 hacts).symm.trans (Engine.acts_iff.1 hacts')

theorem GoesFor.eq {k : Nat} (h : GoesFor now chapter k a b) (h' : GoesFor now chapter k a c) :
    b = c := by
  induction h with
  | refl =>
    cases h'
    rfl
  | head hab _ ih =>
    cases h' with
    | head hab' hrest => exact ih (hab.eq hab' ▸ hrest)

/-- Where a walk has ended, no walk from the same place goes further. -/
theorem GoesFor.le_of_ended {k k' : Nat} (h : GoesFor now chapter k a b)
    (hended : ∀ next, ¬ GoesOn now chapter b next) (h' : GoesFor now chapter k' a c) : k' ≤ k := by
  induction h generalizing k' with
  | refl =>
    cases h' with
    | refl => exact Nat.le_refl 0
    | head hab => exact absurd hab (hended _)
  | head hab _ ih =>
    cases h' with
    | refl => exact Nat.zero_le _
    | head hab' hrest => exact Nat.succ_le_succ (ih hended (hab.eq hab' ▸ hrest))

theorem le_entries {k : Nat} (h : GoesFor now chapter k a b) : (k : ℕ∞) ≤ entries now chapter a :=
  le_iSup₂_of_le k ⟨b, h⟩ le_rfl

theorem entries_of_ended {k : Nat} (h : GoesFor now chapter k a b)
    (hended : ∀ next, ¬ GoesOn now chapter b next) : entries now chapter a = k := by
  refine le_antisymm (iSup₂_le fun k' hk' => ?_) (le_entries h)
  obtain ⟨c, hc⟩ := hk'
  exact Nat.cast_le.2 (h.le_of_ended hended hc)

namespace Engine

section
variable {e after : Engine} {id next : String} {n : Node}

theorem walk_of_missing (hnode : chapter.node? id = none) (steps : Nat) :
    walk now chapter steps e id = e := by
  unfold walk
  rw [hnode]

theorem walk_of_node (hnode : chapter.node? id = some n) (steps : Nat) :
    walk now chapter steps e id =
      match (e.atNode id).enter now n, steps with
      | (after, some next), steps + 1 => walk now chapter steps after next
      | (after, _), _ => after := by
  rw [walk, hnode]
  rfl

/-- A walk ends at a node that leads nowhere. -/
theorem walk_of_stop (hnode : chapter.node? id = some n)
    (hafter : (e.atNode id).enter now n = (after, none)) (steps : Nat) :
    walk now chapter steps e id = after := by
  rw [walk_of_node hnode, hafter]

theorem walk_zero (hnode : chapter.node? id = some n)
    (hafter : (e.atNode id).enter now n = (after, some next)) :
    walk now chapter 0 e id = after := by
  rw [walk_of_node hnode, hafter]

theorem walk_succ (hnode : chapter.node? id = some n)
    (hafter : (e.atNode id).enter now n = (after, some next)) (steps : Nat) :
    walk now chapter (steps + 1) e id = walk now chapter steps after next := by
  rw [walk_of_node hnode, hafter]

end

/-- A walk of at most so many steps enters one more node than that at most, and if it enters fewer
it has ended. -/
theorem goesFor_walk (now : Int64) (chapter : Chapter) (steps : Nat) (e : Engine) (id : String) :
    ∃ k onward, GoesFor now chapter k (e, some id) (walk now chapter steps e id, onward) ∧
      (k = steps + 1 ∨
        k ≤ steps ∧ ∀ next, ¬ GoesOn now chapter (walk now chapter steps e id, onward) next) := by
  cases hnode : chapter.node? id with
  | none =>
    rw [walk_of_missing hnode]
    refine ⟨0, some id, .refl _, .inr ⟨Nat.zero_le _, ?_⟩⟩
    rintro next ⟨hnode', -⟩
    rw [hnode] at hnode'
    cases hnode'
  | some n =>
    rcases hafter : (e.atNode id).enter now n with ⟨after, _ | next⟩
    · rw [walk_of_stop hnode hafter]
      have hentered : GoesOn now chapter (e, some id) (after, none) := .of_enter hnode hafter
      refine ⟨1, none, .head hentered (.refl _), ?_⟩
      cases steps with
      | zero => exact .inl rfl
      | succ steps => exact .inr ⟨Nat.succ_le_succ (Nat.zero_le _), fun next => nofun⟩
    · have hentered : GoesOn now chapter (e, some id) (after, some next) := .of_enter hnode hafter
      cases steps with
      | zero =>
        rw [walk_zero hnode hafter]
        exact ⟨1, some next, .head hentered (.refl _), .inl rfl⟩
      | succ steps =>
        rw [walk_succ hnode hafter]
        obtain ⟨k, onward, hgoes, hk⟩ := goesFor_walk now chapter steps after next
        refine ⟨k + 1, onward, .head hentered hgoes, hk.imp (congrArg Nat.succ) ?_⟩
        exact fun ⟨hle, hended⟩ => ⟨Nat.succ_le_succ hle, hended⟩

/-- A walk enters as many nodes as there are to be entered, or as many as it may. -/
theorem goesFor_walk_min (now : Int64) (chapter : Chapter) (steps : Nat) (e : Engine)
    (id : String) :
    ∃ (k : ℕ) (onward : Option String),
      (k : ℕ∞) = min (entries now chapter (e, some id)) (steps + 1) ∧
        GoesFor now chapter k (e, some id) (walk now chapter steps e id, onward) := by
  obtain ⟨k, onward, hgoes, hk⟩ := goesFor_walk now chapter steps e id
  refine ⟨k, onward, ?_, hgoes⟩
  rcases hk with rfl | ⟨hle, hended⟩
  · have hmore := le_entries hgoes
    push_cast at hmore ⊢
    exact (min_eq_right hmore).symm
  · rw [entries_of_ended hgoes hended, min_eq_left]
    exact_mod_cast Nat.le_succ_of_le hle

/-! ## Main result -/

/-- Going on from a node does what the walk without a limit does, cut off after one more node than
the automatic steps that the settings allow. It enters all nodes that there are to be entered unless
there are more of them; then a larger limit makes no difference. -/
theorem walkFrom_cut (e : Engine) (now : Int64) (chapter : Chapter) (id : String) :
    ∃ (k : ℕ) (onward : Option String),
      (k : ℕ∞) = min (entries now chapter (e, some id)) (e.settings.maxAutoSteps + 1) ∧
      (∀ b, GoesFor now chapter k (e, some id) b ↔ b = (e.walkFrom now chapter id, onward)) ∧
      (entries now chapter (e, some id) ≤ e.settings.maxAutoSteps + 1 →
        ∀ steps, e.settings.maxAutoSteps ≤ steps →
          walk now chapter steps e id = e.walkFrom now chapter id) := by
  obtain ⟨k, onward, hk, hgoes⟩ := goesFor_walk_min now chapter e.settings.maxAutoSteps e id
  refine ⟨k, onward, hk, fun b => ⟨fun hb => hb.eq hgoes, fun hb => hb ▸ hgoes⟩, ?_⟩
  intro hentries steps hsteps
  obtain ⟨k', onward', hk', hgoes'⟩ := goesFor_walk_min now chapter steps e id
  have hle : (e.settings.maxAutoSteps : ℕ∞) + 1 ≤ steps + 1 := by
    gcongr
  have hsame : (k' : ℕ∞) = k := by
    rw [hk, hk', min_eq_left hentries, min_eq_left (hentries.trans hle)]
  rw [Nat.cast_inj.1 hsame] at hgoes'
  exact congrArg Prod.fst (hgoes'.eq hgoes)

end Engine
end

namespace Gallery

def hall : Chapter := { id := "hall", nodes := [door, dawn, dusk, label] }

/-- From the door on two nodes are entered, and then the story waits for the first picture. -/
theorem walkFrom_cut_door :
    Engine.walk 0 hall 20000 { story } "door" = Engine.walkFrom { story } 0 hall "door" := by
  have hdoor : GoesOn 0 hall ({ story }, some "door") (_, some "dawn") :=
    .mk (n := door) rfl (.start rfl rfl)
  have hdawn (e : Engine) : ∃ e', GoesOn 0 hall (e, some "dawn") (e', none) :=
    ⟨_, .mk (n := dawn) rfl (.entrance rfl rfl rfl (by decide))⟩
  obtain ⟨waiting, hdawn⟩ := hdawn _
  have hentries : entries 0 hall ({ story }, some "door") = (2 : ℕ) :=
    entries_of_ended (.head hdoor (.head hdawn (.refl _))) fun next => nofun
  obtain ⟨-, -, -, -, hlarger⟩ := Engine.walkFrom_cut { story } 0 hall "door"
  rw [hentries] at hlarger
  exact hlarger (by decide +kernel) 20000 (by decide)

end Gallery

end BranchingStory
