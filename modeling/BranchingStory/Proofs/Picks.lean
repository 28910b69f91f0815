import BranchingStory.Proofs.Offers
import BranchingStory.Proofs.Operations
import BranchingStory.Proofs.Trimming
/-!
# What is kept of the choices made

Since the last start every choice that was accepted is kept once, in the order in which they were
made: its id in the store, and its text in the backlog, as far back as the backlog goes. Nothing
else adds to the choices made or takes any of them back. An entry of the backlog that is for the same
node as the one before it tells of a choice.
-/

namespace BranchingStory

/-! ## What there is to be kept -/

/-- A choice that was accepted: at which node and at which position it was offered, and when it was
made. -/
structure Pick where
  node : Node
  index : UInt64
  choice : Choice
  time : Int64
deriving DecidableEq, Repr

/-- The entry of the backlog for a choice that was made. -/
def Pick.beat (p : Pick) : Beat where
  node := p.node.id
  type := .choice
  content := p.node.textOrEmpty
  time := p.time
  choice := some p.choice.text

/-- The entry for a node that is entered, if it gets one. -/
def Node.beat? (n : Node) (now : Int64) : Option Beat :=
  match n.kind with
  | .start => if n.next?.isSome then none else some (Engine.nodeBeat n now)
  | .image (some d) => some (Engine.imageBeat n d now)
  | .operations _ | .condition .. | .image none | .script _ => none
  | _ => some (Engine.nodeBeat n now)

/-- A backlog without any limit with one more entry, unless it repeats the last one. -/
def Backlog.noted (b : Backlog) (beat : Beat) : Backlog :=
  if b.repeats beat then b else ⟨b.beats ++ [beat]⟩

/-- Whether a call starts the story from its beginning. -/
def Call.restarts : Call → Bool
  | .start .. | .restart => true
  | _ => false

namespace Engine

/-- The choice that is made with a call, if it is a choice that is accepted. -/
def pick? (e : Engine) (now : Int64) : Call → Option Pick
  | .choose index =>
    if (e.choose now index).isOk then
      e.currentNode?.bind fun n => e.offers[index.toNat]?.map fun o => ⟨n, index, o.choice, now⟩
    else none
  | _ => none

/-- A backlog without any limit after a call: with the choice that is made, and then with the nodes
that are entered. A call that is refused adds nothing. -/
def chronicle (e : Engine) (now : Int64) (c : Call) (b : Backlog) : Backlog :=
  match e.course now c with
  | .error _ => b
  | .ok course =>
    (course.entered.filterMap (·.beat? now)).foldl .noted
      ⟨b.beats ++ (e.pick? now c).toList.map (·.beat)⟩

end Engine

/-- The engines after a start and whatever calls there were since, except for another start and for
loads, with the choices that were accepted, and with what the backlog would be if nothing was ever
dropped from it. -/
inductive Played : List Pick → Backlog → Engine → Prop
  | start {e : Engine} {now : Int64} {c : Call} (hc : c.restarts) (hok : (e.call now c).isOk) :
    Played [] (e.chronicle now c {}) (e.after now c)
  | call {picks : List Pick} {all : Backlog} {e : Engine} (he : Played picks all e) (now : Int64)
      (c : Call) (hc : c.restarts → (e.call now c).isOk = false) :
    Played (picks ++ (e.pick? now c).toList) (e.chronicle now c all) (e.after now c)

/-! ## The backlog without a limit -/

namespace Backlog

variable {b : Backlog} {beat : Beat} {picks : List Pick} {limit : Nat}

/-- A backlog that tells of all choices made, in their order, and of no node twice in a row but to
tell of a choice. -/
structure Tells (picks : List Pick) (b : Backlog) : Prop where
  texts : b.beats.filterMap (·.choice) = picks.map (·.choice.text)
  apart : b.beats.IsChain fun x y => x.node = y.node → x.type = y.type → y.choice.isSome

theorem Tells.noted (h : b.Tells picks) (hchoice : beat.choice = none) :
    (b.noted beat).Tells picks := by
  unfold Backlog.noted
  split
  · exact h
  · rename_i hfresh
    refine ⟨by simp [h.texts, hchoice], List.isChain_append.2 ⟨h.apart, .singleton _, ?_⟩⟩
    intro last hlast next hnext hnode htype
    obtain rfl : beat = next := by simpa using hnext
    refine absurd ?_ hfresh
    unfold repeats
    rw [Option.mem_def.1 hlast, Option.any_some]
    exact decide_eq_true ⟨hnode, htype⟩

theorem Tells.pick (h : b.Tells picks) (p : Pick) :
    Tells (picks ++ [p]) ⟨b.beats ++ [p.beat]⟩ := by
  refine ⟨by simp [h.texts, Pick.beat], List.isChain_append.2 ⟨h.apart, .singleton _, ?_⟩⟩
  intro last hlast next hnext hnode htype
  obtain rfl : p.beat = next := by simpa using hnext
  rfl

theorem Tells.noted_all {beats : List Beat} (h : b.Tells picks)
    (hchoice : ∀ beat ∈ beats, beat.choice = none) : (beats.foldl .noted b).Tells picks := by
  induction beats generalizing b with
  | nil => exact h
  | cons beat rest ih =>
    obtain ⟨hfirst, hrest⟩ := List.forall_mem_cons.1 hchoice
    exact ih (h.noted hfirst) hrest

/-- The latest entries with one more are the latest of all with that one. -/
theorem push_latest_self (b : Backlog) (beat : Beat) (limit : Nat) :
    (b.latest (max limit 1)).push beat limit =
      latest ⟨b.beats ++ [beat]⟩ (max limit 1) := by
  have hroom : b.push beat (max limit (b.beats.length + 1)) = ⟨b.beats ++ [beat]⟩ := by
    unfold push
    simp
  rw [← hroom]
  exact push_latest b beat (by omega)

theorem pushUnique_latest_self (b : Backlog) (beat : Beat) (limit : Nat) :
    (b.latest (max limit 1)).pushUnique beat limit = (b.noted beat).latest (max limit 1) := by
  unfold pushUnique noted
  rw [repeats_latest b beat (Nat.lt_of_lt_of_le Nat.one_pos (Nat.le_max_right limit 1)),
    push_latest_self]
  split <;> rfl

/-- Nothing is dropped from a backlog that fits into the limit. -/
theorem latest_of_length_le {count : Nat} (h : b.beats.length ≤ count) : b.latest count = b := by
  unfold latest List.rtake
  rw [Nat.sub_eq_zero_of_le h, List.drop_zero]

theorem latest_suffix (b : Backlog) (count : Nat) : (b.latest count).beats <:+ b.beats :=
  List.drop_suffix ..

end Backlog

/-- Nodes that are entered tell of no choice. -/
theorem choice_of_beat? {n : Node} {now : Int64} {beat : Beat} (h : n.beat? now = some beat) :
    beat.choice = none := by
  unfold Node.beat? at h
  split at h
  · split at h
    · cases h
    · cases h
      rfl
  all_goals
    cases h
    try rfl

/-! ## What an engine keeps -/

namespace Store

theorem choicesMade_seed (s : Store) (declared : List Declaration) :
    (s.seed declared).choicesMade = s.choicesMade := by
  unfold seed
  induction declared generalizing s with
  | nil => rfl
  | cons d rest ih => exact ih _

theorem choicesMade_applyEffects (s : Store) (effects : Effects) :
    (s.applyEffects effects).choicesMade = s.choicesMade := by
  unfold applyEffects
  generalize effects.setFlags.entries = entries
  induction entries generalizing s with
  | nil => rfl
  | cons entry rest ih => exact ih _

end Store

namespace Engine

/-- What an engine keeps of the choices made, and of a backlog that was never cut short. -/
structure Records (picks : List Pick) (all : Backlog) (e : Engine) : Prop where
  made : e.run.store.choicesMade = picks.map (·.choice.id)
  lastIndex : e.run.lastIndex = picks.getLast?.map (·.index)
  lastText : e.run.lastText = picks.getLast?.map (·.choice.text)
  backlog : e.run.backlog = all.latest (max e.settings.historyLimit 1)

variable {e e' : Engine} {now : Int64} {c : Call} {course : Course} {index : UInt64} {n : Node}
  {picks : List Pick} {all : Backlog} {onward : Option String}

theorem Records.store (h : e.Records picks all) {store : Store}
    (hstore : store.choicesMade = e.run.store.choicesMade) :
    Records picks all { e with run.store := store } :=
  ⟨hstore.trans h.made, h.lastIndex, h.lastText, h.backlog⟩

theorem Records.record (h : e.Records picks all) (beat : Beat) :
    (e.record beat).Records picks (all.noted beat) := by
  refine ⟨h.made, h.lastIndex, h.lastText, ?_⟩
  unfold Engine.record
  dsimp only
  rw [h.backlog, Backlog.pushUnique_latest_self]

theorem Records.direct (h : e.Records picks all) (now : Int64) (node : String)
    (d : ImageDirective) : (e.direct now node d).Records picks all := by
  obtain ⟨scene, timers, imageCounter, hd⟩ := e.direct_frame now node d
  rw [hd]
  exact ⟨h.made, h.lastIndex, h.lastText, h.backlog⟩

/-- Whatever a node does, it is noted as such and makes no choice. -/
theorem Records.acts (h : e.Records picks all) (hacts : n.Acts now e e' onward) :
    e'.Records picks ((n.beat? now).elim all all.noted) := by
  unfold Node.beat?
  cases hacts with
  | start hkind hnext => simpa [hkind, hnext] using h
  | startOnly hkind hnext => simpa [hkind, hnext] using h.record (nodeBeat n now)
  | operations hkind =>
    simp only [hkind, Option.elim_none]
    exact h.store (Store.choicesMade_executeAll ..)
  | branch hkind => simpa [hkind] using h
  | otherwise hkind => simpa [hkind] using h
  | script hkind => simpa [hkind] using h
  | noImage hkind => simpa [hkind] using h
  | image hkind =>
    rename_i d _
    simpa [hkind] using (h.direct now n.id d).record (imageBeat n d now)
  | entrance hkind =>
    rename_i d _ _ _ _
    obtain ⟨hmade, hindex, htext, hbacklog⟩ := (h.direct now n.id d).record (imageBeat n d now)
    simp only [hkind, Option.elim_some]
    exact ⟨hmade, hindex, htext, hbacklog⟩
  | stop hkind =>
    have hrecord := h.record (nodeBeat n now)
    unfold Node.type at hkind
    cases hn : n.kind <;> simp [hn, NodeKind.type] at hkind <;> exact hrecord

theorem Records.enter (h : e.Records picks all) (now : Int64) (n : Node) :
    (e.enter now n).1.Records picks ((n.beat? now).elim all all.noted) := by
  have haffected : (e.affected n).Records picks all := by
    refine h.store ?_
    cases n.onEnter with
    | none => rfl
    | some effects => exact Store.choicesMade_applyEffects ..
  exact haffected.acts (acts_iff.2 rfl)

/-- From moment to moment nothing is noted but the nodes that are entered. -/
theorem Records.through {a : Moment} {later : List Moment} (h : a.engine.Records picks all)
    (hchain : (a :: later).IsChain (Follows now)) :
    (a.engine.through later).Records picks
      (((later.filterMap (·.entered)).filterMap (·.beat? now)).foldl .noted all) := by
  induction later generalizing a all with
  | nil => exact h
  | cons b rest ih =>
    obtain ⟨hab, hrest⟩ := List.isChain_cons_cons.1 hchain
    have hthrough : a.engine.through (b :: rest) = b.engine.through rest := rfl
    rw [hthrough]
    rcases hab with ⟨hchapter, honward, hnode⟩ | hfires
    · rename_i chapter id n
      have hat : (a.engine.atNode id).Records picks all :=
        ⟨h.made, h.lastIndex, h.lastText, h.backlog⟩
      have hlater := ih (hat.enter now n) hrest
      rw [List.filterMap_cons_some (show Moment.entered _ = some n from rfl)]
      cases hbeat : n.beat? now with
      | none => simpa [hbeat] using hlater
      | some beat => simpa [hbeat] using hlater
    · have hb : b.engine.Records picks all ∧ b.entered = none := by
        cases hfires <;> exact ⟨⟨h.made, h.lastIndex, h.lastText, h.backlog⟩, rfl⟩
      rw [List.filterMap_cons_none hb.2]
      exact ih hb.1 hrest

/-! ## What a call adds -/

/-- A choice that is accepted is one of those at the current node. -/
theorem exists_pick (h : e.course now (.choose index) = .ok course) :
    ∃ n o, e.currentNode? = some n ∧ e.offers[index.toNat]? = some o ∧
      e.pick? now (.choose index) = some ⟨n, index, o.choice, now⟩ ∧
      course.opening.engine = e.recordChoice now n index o.choice := by
  have hok : (e.choose now index).isOk := by
    have hcall := call_of_course h
    cases hchoose : e.choose now index with
    | error refusal => simp [call, hchoose, Except.map] at hcall
    | ok out => rfl
  change e.choosing now index = _ at h
  unfold choosing at h
  cases hfree : e.hindrance? with
  | some refusal => simp [hfree] at h
  | none =>
    simp only [hfree] at h
    split at h
    · cases h
    · rename_i n hn
      split at h
      · rename_i choices hkind
        split at h
        · cases h
        · rename_i choice hchoice
          split at h
          · cases h
            have hoffer : e.offers[index.toNat]? =
                some ⟨index.toNat, choice, e.unlocked choice⟩ := by
              rw [e.getElem?_offers hn hkind, hchoice, Option.map_some]
            refine ⟨n, _, hn, hoffer, ?_, rfl⟩
            unfold pick?
            simp [hok, hn, hoffer]
          · cases h
      · cases h

theorem Records.recordChoice (h : e.Records picks all) (p : Pick) :
    (e.recordChoice p.time p.node p.index p.choice).Records (picks ++ [p])
      ⟨all.beats ++ [p.beat]⟩ := by
  constructor
  · unfold Engine.recordChoice
    cases p.choice.effects with
    | none => simp [Store.recordChoice, h.made]
    | some effects => simp [Store.choicesMade_applyEffects, Store.recordChoice, h.made]
  · simp [Engine.recordChoice]
  · simp [Engine.recordChoice]
  · have hpush := Backlog.push_latest_self all p.beat e.settings.historyLimit
    rw [← h.backlog] at hpush
    exact hpush

/-- Only choosing makes a choice. -/
theorem pick?_eq_none (hchoose : ∀ index, c ≠ .choose index) : e.pick? now c = none := by
  cases c with
  | choose index => exact absurd rfl (hchoose index)
  | _ => rfl

theorem pick?_of_refused {refusal : Refusal} (h : e.course now c = .error refusal) :
    e.pick? now c = none := by
  have hcall := call_of_refused h
  cases c with
  | choose index =>
    cases hchoose : e.choose now index with
    | error refusal => simp [pick?, hchoose, Except.isOk, Except.toBool]
    | ok out => simp [call, hchoose, Except.map] at hcall
  | _ => rfl

/-- A call that neither starts the story from its beginning nor makes a choice opens with what was
kept before. -/
theorem Records.opening {a : Moment} (h : e.Records picks all) (hopens : Opens e now c a)
    (hrestarts : c.restarts = false) (hchoose : ∀ index, c ≠ .choose index) :
    a.engine.Records picks all := by
  cases hopens with
  | anew _ hc =>
    rcases hc with rfl | ⟨stage, chapter, rfl⟩
    · cases hrestarts
    · cases hrestarts
  | movedInto =>
    exact ⟨(Store.choicesMade_seed ..).trans h.made, h.lastIndex, h.lastText, h.backlog⟩
  | advance => exact h
  | finish => exact ⟨h.made, h.lastIndex, h.lastText, h.backlog⟩
  | choose index => exact absurd rfl (hchoose index)
  | poll => exact h

/-- A call adds the choice that is made with it, and what it enters. -/
theorem Records.after (h : e.Records picks all) (hc : c.restarts → (e.call now c).isOk = false) :
    (e.after now c).Records (picks ++ (e.pick? now c).toList) (e.chronicle now c all) := by
  unfold chronicle
  cases hcourse : e.course now c with
  | error refusal =>
    rw [after_of_refused hcourse, pick?_of_refused hcourse]
    simpa using h
  | ok course =>
    have hrestarts : c.restarts = false := by
      by_contra hanew
      have hrefused := hc (by simpa using hanew)
      rw [call_of_course hcourse] at hrefused
      cases hrefused
    rw [after_of_course hcourse]
    refine Records.through (a := course.opening) ?_ (isChain_course hcourse)
    by_cases hchoose : ∃ index, c = .choose index
    · obtain ⟨index, rfl⟩ := hchoose
      obtain ⟨n, o, -, -, hpick, hopening⟩ := exists_pick hcourse
      rw [hpick, hopening]
      exact h.recordChoice ⟨n, index, o.choice, now⟩
    · have hother (index : UInt64) : c ≠ .choose index := fun heq => hchoose ⟨index, heq⟩
      rw [pick?_eq_none hother]
      simpa using h.opening (course_opens hcourse).1 hrestarts hother

/-- A start begins with nothing made and nothing noted. -/
theorem records_start (hc : c.restarts) (hok : (e.call now c).isOk) :
    (e.after now c).Records [] (e.chronicle now c {}) := by
  have hother (index : UInt64) : c ≠ .choose index := by
    rintro rfl
    cases hc
  unfold chronicle
  rw [pick?_eq_none hother]
  cases hcourse : e.course now c with
  | error refusal =>
    rw [call_of_refused hcourse] at hok
    cases hok
  | ok course =>
    rw [after_of_course hcourse]
    refine Records.through (a := course.opening) ?_ (isChain_course hcourse)
    have hopens := (course_opens hcourse).1
    generalize course.opening = opening at hopens
    cases hopens with
    | anew _ _ stage chapter =>
      refine ⟨?_, rfl, rfl, (Backlog.latest_of_length_le (Nat.zero_le _)).symm⟩
      exact (Store.choicesMade_seed ..).trans (Store.choicesMade_seed ..)
    | _ => cases hc

/-- What is noted with a call tells of the choice that is made with it, and of no other. -/
theorem tells_chronicle (h : all.Tells picks) (now : Int64) (c : Call) :
    (e.chronicle now c all).Tells (picks ++ (e.pick? now c).toList) := by
  unfold chronicle
  cases hcourse : e.course now c with
  | error refusal =>
    rw [pick?_of_refused hcourse]
    simpa using h
  | ok course =>
    have hpicked : Backlog.Tells (picks ++ (e.pick? now c).toList)
        ⟨all.beats ++ (e.pick? now c).toList.map (·.beat)⟩ := by
      cases e.pick? now c with
      | none => simpa using h
      | some p => exact h.pick p
    refine hpicked.noted_all fun beat hbeat => ?_
    obtain ⟨n, -, hn⟩ := List.mem_filterMap.1 hbeat
    exact choice_of_beat? hn

end Engine

/-- What a play keeps, and what its backlog without a limit tells. -/
theorem Played.records {picks : List Pick} {all : Backlog} {e : Engine} (h : Played picks all e) :
    e.Records picks all ∧ all.Tells picks := by
  induction h with
  | start hc hok =>
    rename_i e now c
    refine ⟨Engine.records_start hc hok, ?_⟩
    have hother (index : UInt64) : c ≠ .choose index := by
      rintro rfl
      cases hc
    have hnothing : Backlog.Tells [] {} := ⟨rfl, .nil⟩
    have htells := Engine.tells_chronicle (e := e) hnothing now c
    rwa [Engine.pick?_eq_none hother] at htells
  | call he now c hc ih => exact ⟨ih.1.after hc, Engine.tells_chronicle ih.2 now c⟩

/-! ## Main result -/

/-- Since the last start the choices made are those that were accepted, in their order. The last
index and text are those of the last one, and the backlog has the texts of the latest ones, or of
all if nothing had to be dropped. Two entries in a row for one node and type tell of a choice. -/
theorem Played.picks_kept {picks : List Pick} {all : Backlog} {e : Engine}
    (h : Played picks all e) :
    e.run.store.choicesMade = picks.map (·.choice.id) ∧
    e.run.lastIndex = picks.getLast?.map (·.index) ∧
    e.run.lastText = picks.getLast?.map (·.choice.text) ∧
    e.run.backlog = all.latest (max e.settings.historyLimit 1) ∧
    all.beats.filterMap (·.choice) = picks.map (·.choice.text) ∧
    e.run.backlog.beats.filterMap (·.choice) <:+ picks.map (·.choice.text) ∧
    (all.beats.length ≤ max e.settings.historyLimit 1 →
      e.run.backlog.beats.filterMap (·.choice) = picks.map (·.choice.text)) ∧
    (e.run.backlog.beats.IsChain fun a b =>
      a.node = b.node → a.type = b.type → b.choice.isSome) ∧
    ∀ now index, (e.choose now index).isOk → ∃ n o, e.currentNode? = some n ∧
      e.offers[index.toNat]? = some o ∧
      e.pick? now (.choose index) = some ⟨n, index, o.choice, now⟩ := by
  obtain ⟨hrecords, htells⟩ := h.records
  have hsuffix : e.run.backlog.beats <:+ all.beats := by
    rw [hrecords.backlog]
    exact all.latest_suffix _
  refine ⟨hrecords.made, hrecords.lastIndex, hrecords.lastText, hrecords.backlog, htells.texts,
    ?texts, fun hroom => ?_, ?apart, fun now index hok => ?_⟩
  case texts =>
    rw [← htells.texts]
    exact hsuffix.filterMap _
  case apart =>
    exact htells.apart.suffix hsuffix
  · rw [hrecords.backlog, Backlog.latest_of_length_le hroom, htells.texts]
  · cases hchoose : e.choose now index with
    | error refusal =>
      rw [hchoose] at hok
      cases hok
    | ok out =>
      have hcall : e.call now (.choose index) = .ok (.done, out.1) := by
        simp [Engine.call, hchoose, Except.map]
      obtain ⟨course, hcourse, -⟩ := Engine.course_of_call hcall
      obtain ⟨n, o, hn, hoffer, hpick, -⟩ := Engine.exists_pick hcourse
      exact ⟨n, o, hn, hoffer, hpick⟩

namespace Gallery

/-- The left way leads nowhere, so it is taken twice. A choice that is out of range leaves no trace,
and the right way is open by then. -/
theorem picks_kept_parting :
    let calls := [(5, .choose 0), (6, .choose 0), (7, .choose 2), (8, .choose 1)]
    let e := (parting.play calls).2
    e.run.store.choicesMade = ["left", "left", "right"] ∧ e.run.lastIndex = some 1 ∧
      e.run.backlog.beats.filterMap (·.choice) =
        ["To the left", "To the left", "To the right"] := by
  intro calls e
  have hstart : Played [] _ parting :=
    .start rfl (by decide +kernel : (Engine.call { story := crossing } 0 (.start none none)).isOk)
  have hplayed := ((((hstart.call 5 (.choose 0) nofun).call 6 (.choose 0) nofun).call 7
    (.choose 2) nofun).call 8 (.choose 1) nofun)
  obtain ⟨hmade, hindex, -, -, -, -, hroom, -⟩ := hplayed.picks_kept
  refine ⟨hmade.trans (by decide +kernel), hindex.trans (by decide +kernel), ?_⟩
  exact (hroom (by decide +kernel)).trans (by decide +kernel)

end Gallery
end BranchingStory
