import BranchingStory.Proofs.Images
/-!
# What a slot shows in the end

The content of a slot is the image that is to come into it, or else the image that stays in it. A
directive settles the content of its slot at once, however long the image before it takes to leave;
timers only carry out what is settled, and nothing else touches the slot. So the last directive for
a slot tells what it shows.
-/

namespace BranchingStory

/-- The image that a timer brings into a slot, with its node. -/
def Deferred.brought? (slot : Slot) : Deferred → Option (String × Picture)
  | .showImage node d => if d.picture.slot = slot then some (node, d.picture) else none
  | _ => none

/-- The image that is to come into a slot, or else the one that stays in it, with its node. -/
def Engine.content? (e : Engine) (slot : Slot) : Option (String × Picture) :=
  (e.timers.live.findSome? fun t => t.action.brought? slot).or
    ((e.run.scene.resident? slot).map fun i => (i.node, i.picture))

/-- What a directive of a node wants its slot to show. -/
def ImageDirective.wanted? (d : ImageDirective) (node : String) : Option (String × Picture) :=
  if d.isRemoval then none else some (node, d.picture)

/-- What a node wants a slot to show, if it has a directive for it. -/
def Node.wants? (slot : Slot) (n : Node) : Option (Option (String × Picture)) :=
  (n.directive?.filter (·.picture.slot = slot)).map (·.wanted? n.id)

theorem Deferred.fills_iff {slot : Slot} {action : Deferred} :
    action.fills slot ↔ ∃ node d, action = .showImage node d ∧ d.picture.slot = slot := by
  cases action <;> simp [fills]

namespace Engine

variable {late late' : Timer → Prop} {e e' : Engine} {slot : Slot}

/-! ## Content -/

section Content

theorem content?_of_timer (h : e.Staged late) {t : Timer} (ht : t ∈ e.timers.timers)
    {node : String} {d : ImageDirective} (haction : t.action = .showImage node d) :
    e.content? d.picture.slot = some (node, d.picture) := by
  have hfound : (e.timers.live.findSome? fun t => t.action.brought? d.picture.slot) =
      some (node, d.picture) := by
    rw [h.timers.live_eq]
    obtain ⟨u, hu⟩ : ∃ u, (e.timers.timers.findSome? fun t => t.action.brought? d.picture.slot) =
        some u := by
      rw [← Option.isSome_iff_exists, List.findSome?_isSome_iff]
      exact ⟨t, ht, by simp [haction, Deferred.brought?]⟩
    obtain ⟨other, hother, hbrought⟩ := List.exists_of_findSome?_eq_some hu
    have heq : other = t := by
      refine h.eq_of_fills hother ht ?_ (by rw [haction]; exact decide_eq_true rfl)
      cases hact : other.action <;> simp_all [Deferred.brought?, Deferred.fills]
    rw [heq, haction] at hbrought
    rw [hu, ← hbrought]
    simp [Deferred.brought?]
  rw [content?, hfound]
  rfl

/-- Without a timer for the slot its content is what stays in it. -/
theorem content?_of_free (h : e.Staged late)
    (hfree : ∀ t ∈ e.timers.timers, ¬ t.action.fills slot) :
    e.content? slot = (e.run.scene.resident? slot).map fun i => (i.node, i.picture) := by
  have hnone : (e.timers.live.findSome? fun t => t.action.brought? slot) = none := by
    rw [h.timers.live_eq, List.findSome?_eq_none_iff]
    intro t ht
    have hother := hfree t ht
    cases haction : t.action <;> simp_all [Deferred.brought?, Deferred.fills]
  rw [content?, hnone]
  rfl

theorem content?_of_resident (h : e.Staged late) {i : StageImage} (hi : i ∈ e.run.scene.images)
    (hslot : i.slot = slot) (hstays : i.exiting = false) :
    e.content? slot = some (i.node, i.picture) := by
  have hfree : ∀ t ∈ e.timers.timers, ¬ t.action.fills slot := by
    intro t ht hfills
    exact Bool.false_ne_true (hstays.symm.trans (h.vacated t ht slot hfills i hi hslot))
  rw [content?_of_free h hfree, h.scene.resident?_eq hi hslot hstays]
  rfl

theorem content?_of_empty (h : e.Staged late)
    (hfree : ∀ t ∈ e.timers.timers, ¬ t.action.fills slot)
    (hempty : ∀ i ∈ e.run.scene.images, i.slot = slot → i.exiting) : e.content? slot = none := by
  rw [content?_of_free h hfree, Scene.resident?_eq_none.2 hempty]
  rfl

/-- A slot has the same content as before, if the same timers bring images into it and the same
images stay in it. -/
theorem content?_congr (h : e.Staged late) (h' : e'.Staged late')
    (htimers : ∀ t, t.action.fills slot → (t ∈ e'.timers.timers ↔ t ∈ e.timers.timers))
    (himages : ∀ i, i.slot = slot → i.exiting = false →
      (i ∈ e'.run.scene.images ↔ i ∈ e.run.scene.images)) :
    e'.content? slot = e.content? slot := by
  by_cases htimer : ∃ t ∈ e.timers.timers, t.action.fills slot
  · obtain ⟨t, ht, hfills⟩ := htimer
    obtain ⟨node, d, haction, rfl⟩ := Deferred.fills_iff.1 hfills
    rw [content?_of_timer h ht haction, content?_of_timer h' ((htimers t hfills).2 ht) haction]
  by_cases hresident : ∃ i ∈ e.run.scene.images, i.slot = slot ∧ i.exiting = false
  · obtain ⟨i, hi, hslot, hstays⟩ := hresident
    rw [content?_of_resident h hi hslot hstays,
      content?_of_resident h' ((himages i hslot hstays).2 hi) hslot hstays]
  have hfree : ∀ t ∈ e.timers.timers, ¬ t.action.fills slot :=
    fun t ht hfills => htimer ⟨t, ht, hfills⟩
  have hempty : ∀ i ∈ e.run.scene.images, i.slot = slot → i.exiting :=
    fun i hi hslot => by_contra fun hstays =>
      hresident ⟨i, hi, hslot, Bool.eq_false_iff.2 hstays⟩
  rw [content?_of_empty h hfree hempty]
  refine content?_of_empty h' (fun t ht hfills => hfree t ((htimers t hfills).1 ht) hfills) ?_
  intro i hi hslot
  by_contra hstays
  exact hstays (hempty i ((himages i hslot (Bool.eq_false_iff.2 hstays)).1 hi) hslot)

end Content

/-! ## Directives -/

/-- Which images stay in other slots once an image has been placed. -/
theorem mem_showImage {node : String} {d : ImageDirective} {i : StageImage}
    (hother : i.slot ≠ d.picture.slot) :
    i ∈ (e.showImage node d).run.scene.images ↔ i ∈ e.run.scene.images := by
  constructor
  · intro hi
    rcases List.mem_append.1 hi with hi | hi
    · exact List.mem_of_mem_filter hi
    · obtain rfl := List.mem_singleton.1 hi
      exact absurd rfl hother
  · intro hi
    refine List.mem_append_left _ (List.mem_filter.2 ⟨hi, ?_⟩)
    have hne : i.slot ≠ (StageImage.ofDirective node (e.imageCounter + 1) d).slot := hother
    simp [hne]

/-- The image that has just been placed is the content of its slot. -/
theorem content?_showImage {node : String} {d : ImageDirective}
    (h' : (e.showImage node d).Staged late) :
    (e.showImage node d).content? d.picture.slot = some (node, d.picture) :=
  content?_of_resident h' (i := .ofDirective node (e.imageCounter + 1) d)
    (List.mem_append_right _ (.head _)) rfl rfl

/-- A directive leaves the images in other slots alone, whether they are on their way out or not. -/
theorem mem_images_direct (h : e.Staged late) {now : Int64} {node : String} {d : ImageDirective}
    {i : StageImage} (hother : i.slot ≠ d.picture.slot) :
    i ∈ (e.direct now node d).run.scene.images ↔ i ∈ e.run.scene.images := by
  have hcleared := h.cleared d
  have hd := directs e now node d
  generalize e.direct now node d = after at hd
  cases hd with
  | empty hremoval =>
    refine ⟨List.mem_of_mem_filter, fun hi => List.mem_filter.2 ⟨hi, ?_⟩⟩
    simpa using hother
  | bring hpicture hempty => exact mem_showImage hother
  | replace hpicture resident hresident =>
    obtain ⟨hmem, hslot, -⟩ := Scene.of_resident? hresident
    refine (mem_showImage hother).trans ?_
    refine ⟨List.mem_of_mem_filter, fun hi => List.mem_filter.2 ⟨hi, ?_⟩⟩
    have hserial : i.serial ≠ resident.serial := by
      intro heq
      rw [hcleared.scene.eq_of_serial hi hmem heq] at hother
      exact hother hslot
    simpa using hserial
  | exchange hpicture resident hresident effect =>
    obtain ⟨hmem, hslot, -⟩ := Scene.of_resident? hresident
    have hleft : i ∈ ((e.cleared d).run.scene.beginExit resident.serial effect
        d.exitDuration).images ↔ i ∈ e.run.scene.images :=
      hcleared.scene.mem_beginExit hmem (hslot ▸ hother)
    unfold exchange
    cases d.timing with
    | crossfade => exact (mem_showImage hother).trans hleft
    | sequential => exact hleft

/-- What was to come into another slot than that of a directive still is. -/
theorem mem_timers_direct {now : Int64} {node : String} {d : ImageDirective} {t : Timer}
    (hfills : t.action.fills slot) (hother : slot ≠ d.picture.slot) :
    t ∈ (e.direct now node d).timers.timers ↔ t ∈ e.timers.timers := by
  have hcleared : t ∈ (e.cleared d).timers.timers ↔ t ∈ e.timers.timers := by
    obtain ⟨node', d', haction, rfl⟩ := Deferred.fills_iff.1 hfills
    refine ⟨List.mem_of_mem_filter, fun ht => List.mem_filter.2 ⟨ht, ?_⟩⟩
    simp [haction, Deferred.fills, hother]
  have hd := directs e now node d
  generalize e.direct now node d = after at hd
  refine Iff.trans ?_ hcleared
  cases hd with
  | empty => rfl
  | bring => rfl
  | replace => rfl
  | exchange _ resident _ effect =>
    unfold exchange
    cases d.timing with
    | crossfade =>
      refine ⟨fun ht => (List.mem_cons.1 ht).resolve_left ?_, .tail _⟩
      rintro rfl
      exact Bool.false_ne_true hfills
    | sequential =>
      refine ⟨fun ht => ?_, fun ht => .tail _ (.tail _ ht)⟩
      refine (List.mem_cons.1 ((List.mem_cons.1 ht).resolve_left ?_)).resolve_left ?_
      · rintro rfl
        exact hother (of_decide_eq_true hfills).symm
      · rintro rfl
        exact Bool.false_ne_true hfills

/-- A directive leaves the content of other slots alone. -/
theorem content?_direct_other (h : e.Staged late) {now : Int64} {node : String} {d : ImageDirective}
    (hroom : e.imageCounter ≤ (e.direct now node d).imageCounter) (hother : slot ≠ d.picture.slot) :
    (e.direct now node d).content? slot = e.content? slot := by
  refine content?_congr h (h.direct hroom) (fun t hfills => mem_timers_direct hfills hother) ?_
  exact fun i hi _ => mem_images_direct h (hi ▸ hother)

/-- A directive settles the content of its own slot. -/
theorem content?_direct_own (h : e.Staged late) {now : Int64} {node : String} {d : ImageDirective}
    (hroom : e.imageCounter ≤ (e.direct now node d).imageCounter) :
    (e.direct now node d).content? d.picture.slot = d.wanted? node := by
  have hafter := h.direct hroom
  have hfree := cleared_free h d
  have hd := directs e now node d
  generalize e.direct now node d = after at hd hroom hafter
  unfold ImageDirective.wanted?
  cases hd with
  | empty hremoval =>
    rw [if_pos hremoval]
    refine content?_of_empty hafter hfree fun i hi hslot => ?_
    exact absurd hslot (of_decide_eq_true (List.mem_filter.1 hi).2)
  | bring hpicture hempty =>
    rw [hpicture]
    exact content?_showImage hafter
  | replace hpicture resident hresident =>
    rw [hpicture]
    exact content?_showImage hafter
  | exchange hpicture resident hresident effect =>
    rw [hpicture]
    unfold exchange at hroom hafter ⊢
    generalize d.timing = timing at hroom hafter
    cases timing with
    | crossfade => exact content?_showImage hafter
    | sequential => exact content?_of_timer hafter (.head _) rfl

/-- After a node has been entered, a slot has the content that the node wants it to have, or the one
that it had before. -/
theorem content?_enter (h : e.Staged late) {now : Int64} {n : Node}
    (hroom : e.imageCounter ≤ (e.enter now n).1.imageCounter) :
    (e.enter now n).1.content? slot = (n.wants? slot).getD (e.content? slot) := by
  have hdirect {d : ImageDirective} (hd : n.directive? = some d)
      (hroom : e.imageCounter ≤ (e.direct now n.id d).imageCounter) :
      (e.direct now n.id d).content? slot = (n.wants? slot).getD (e.content? slot) := by
    rw [Node.wants?, hd]
    by_cases hslot : d.picture.slot = slot
    · subst hslot
      rw [content?_direct_own h hroom]
      simp [Option.filter]
    · rw [content?_direct_other h hroom (Ne.symm hslot)]
      simp [Option.filter, hslot]
  have hentered := enters e now n
  have hafter := h.enter hroom
  generalize e.enter now n = after at hentered hroom hafter
  cases hentered with
  | plain hnone =>
    rw [Node.wants?, hnone]
    rfl
  | image d hd => exact hdirect hd hroom
  | wait d hd =>
    refine Eq.trans ?_ (hdirect hd hroom)
    refine content?_congr (h.direct hroom) hafter (fun t hfills => ?_) fun i _ _ => Iff.rfl
    refine ⟨fun ht => (List.mem_cons.1 ht).resolve_left ?_, .tail _⟩
    rintro rfl
    exact Bool.false_ne_true hfills

end Engine

/-! ## Courses -/

/-- Timers that fire carry out what is settled. -/
theorem Fires.content? {now : Int64} {a b : Moment} (h : Fires now a b)
    (hroom : a.engine.imageCounter ≤ b.engine.imageCounter)
    (ha : a.engine.Staged fun t => t.due ≤ now) (slot : Slot) :
    b.engine.content? slot = a.engine.content? slot := by
  have hb := h.staged hroom (fun _ => id) ha
  have herase {timer t : Timer} (hother : ¬ timer.action.fills slot)
      (hfills : t.action.fills slot) :
      t ∈ a.engine.timers.timers.erase timer ↔ t ∈ a.engine.timers.timers := by
    refine List.mem_erase_of_ne ?_
    rintro rfl
    exact hother hfills
  cases h with
  | remove hdue =>
    rename_i serial timers
    obtain ⟨timer, hlive, -, haction, rfl, -⟩ := Timers.of_popDue hdue
    refine Engine.content?_congr ha hb (fun t hfills => herase ?_ hfills) fun i _ hstays => ?_
    · simp [haction, Deferred.fills]
    · refine ⟨List.mem_of_mem_filter, fun hi => List.mem_filter.2 ⟨hi, ?_⟩⟩
      have hexiting := (ha.removal timer (Timers.mem_live.1 hlive).1 serial haction).2 i hi
      simp only [hstays, Bool.false_eq_true, imp_false] at hexiting
      simpa using hexiting
  | bring hdue =>
    rename_i node d timers
    obtain ⟨timer, hlive, -, haction, rfl, -⟩ := Timers.of_popDue hdue
    by_cases hslot : d.picture.slot = slot
    · subst hslot
      rw [Engine.content?_of_timer ha (Timers.mem_live.1 hlive).1 haction]
      exact Engine.content?_showImage hb
    · refine Engine.content?_congr ha hb (fun t hfills => herase ?_ hfills) fun i hi _ => ?_
      · simp [haction, Deferred.fills, hslot]
      · exact Engine.mem_showImage (hi ▸ Ne.symm hslot)
  | moveOn hdue =>
    obtain ⟨timer, hlive, -, haction, rfl, -⟩ := Timers.of_popDue hdue
    refine Engine.content?_congr ha hb (fun t hfills => herase ?_ hfills) fun i _ _ => Iff.rfl
    simp [haction, Deferred.fills]

/-- Every slot has the content that the last node wanted it to have of those that had a directive
for it. -/
def Engine.Shows (e : Engine) (log : List Node) : Prop :=
  ∀ slot wanted, log.reverse.findSome? (·.wants? slot) = some wanted → e.content? slot = wanted

theorem Follows.shows {now : Int64} {a b : Moment} {log : List Node} (h : Follows now a b)
    (hroom : a.engine.imageCounter ≤ b.engine.imageCounter)
    (ha : a.engine.Staged fun t => t.due ≤ now) (hshows : a.engine.Shows log) :
    b.engine.Shows (log ++ b.entered.toList) := by
  intro slot wanted hwanted
  rcases h with ⟨hchapter, honward, hnode⟩ | hfires
  · rename_i chapter id n
    have hat : (a.engine.atNode id).Staged fun t => t.due ≤ now := ha.congr rfl rfl rfl
    rw [Engine.content?_enter hat hroom]
    simp only [Option.toList_some, List.reverse_append, List.reverse_singleton,
      List.singleton_append, List.findSome?_cons] at hwanted
    cases hwants : n.wants? slot with
    | some own =>
      rw [hwants] at hwanted
      exact Option.some.inj hwanted
    | none =>
      rw [hwants] at hwanted
      exact hshows slot wanted hwanted
  · rw [hfires.content? hroom ha]
    have hentered : b.entered = none := by
      cases hfires <;> rfl
    rw [hentered, Option.toList_none, List.append_nil] at hwanted
    exact hshows slot wanted hwanted

/-- Through the moments of a call every slot goes on to show what was wanted last. -/
theorem shows_through {now : Int64} {log : List Node} {a : Moment} {later : List Moment}
    (hchain : (a :: later).IsChain fun a b =>
      Follows now a b ∧ a.engine.imageCounter ≤ b.engine.imageCounter)
    (ha : a.engine.Staged fun t => t.due ≤ now) (hshows : a.engine.Shows log) :
    (a.engine.through later).Shows (log ++ later.filterMap (·.entered)) := by
  induction later generalizing a log with
  | nil => simpa using hshows
  | cons b later ih =>
    obtain ⟨⟨hab, hroom⟩, hrest⟩ := List.isChain_cons_cons.1 hchain
    have hnext := ih hrest (hab.staged hroom (fun _ => id) ha) (hab.shows hroom ha hshows)
    rw [Engine.through_cons, List.filterMap_cons]
    cases hentered : b.entered with
    | none => simpa [hentered] using hnext
    | some n => simpa [hentered] using hnext

theorem Opens.shows {e : Engine} {now : Int64} {c : Call} {a : Moment} {log : List Node}
    (h : Opens e now c a) (he : e.Shows log) :
    a.engine.Shows (if c.startsAnew then [] else log) := by
  have hnothing (e : Engine) : e.Shows [] := fun slot wanted hwanted => by simp at hwanted
  cases h with
  | anew _ hc =>
    rcases hc with rfl | ⟨stage, chapter, rfl⟩ <;> exact hnothing _
  | movedInto => exact hnothing _
  | _ => exact he

theorem Run.shows {s : Story} {log : List Node} {e : Engine} (h : Run s log e) : e.Shows log := by
  induction h with
  | fresh settings observers => exact fun slot wanted hwanted => by simp at hwanted
  | call he h hsteady _ ih =>
    have hopens := (Engine.course_opens h).1
    have hchain := isChain_and (Engine.isChain_course h) hsteady
    exact shows_through hchain (hopens.staged (he.staged.imp fun _ => False.elim)) (hopens.shows ih)
  | load => exact fun slot wanted hwanted => by simp at hwanted

/-- The last image node with a directive for a slot tells what the slot shows from then on, until
something is started anew: its image, under its id, or nothing. It does so between any two calls,
whatever effects and times it and the nodes before it ask for, and whatever is entered after it for
other slots. -/
theorem Run.content_of_last_directive {s : Story} {log before after : List Node} {e : Engine}
    {n : Node} {d : ImageDirective} (h : Run s log e) (hlog : log = before ++ n :: after)
    (hkind : n.kind = .image (some d))
    (hlast : ∀ m ∈ after, ∀ d', m.kind = .image (some d') → d'.picture.slot ≠ d.picture.slot) :
    e.content? d.picture.slot =
      if d.picture.path = "" then none else some (n.id, d.picture) := by
  have hwants : n.wants? d.picture.slot = some (d.wanted? n.id) := by
    rw [Node.wants?, Node.directive?_eq_some.2 hkind]
    simp [Option.filter]
  have hnone : after.reverse.findSome? (·.wants? d.picture.slot) = none := by
    refine List.findSome?_eq_none_iff.2 fun m hm => ?_
    unfold Node.wants?
    cases hd' : m.directive? with
    | none => rfl
    | some d' =>
      have hother := hlast m (List.mem_reverse.1 hm) d' (Node.directive?_eq_some.1 hd')
      simp [Option.filter, hother]
  have hlogged : log.reverse.findSome? (·.wants? d.picture.slot) = some (d.wanted? n.id) := by
    rw [hlog, List.reverse_append, List.reverse_cons, List.append_assoc, List.findSome?_append,
      hnone, Option.none_or, List.singleton_append, List.findSome?_cons, hwants]
  rw [h.shows _ _ hlogged]
  simp [ImageDirective.wanted?, ImageDirective.isRemoval]

/-- The second picture is still to come, and the slot shows it. -/
theorem Gallery.content_swapping : swapping.content? wall = some ("dusk", duskPicture) := by
  have hlast : ∀ m ∈ [label], ∀ d', m.kind = .image (some d') → d'.picture.slot ≠ wall := by
    intro m hm d' hkind
    rw [List.mem_singleton.1 hm] at hkind
    cases hkind
  have hlog : [door, dawn, dusk, label] = [door, dawn] ++ dusk :: [label] := rfl
  exact Run.content_of_last_directive run_swapping hlog rfl hlast

end BranchingStory
