import BranchingStory.Proofs.Observers
import BranchingStory.Proofs.Walks
import Mathlib.Data.List.DropRight
/-!
# Shorter backlogs

The limit of the backlog matters to the backlog only. An engine with a smaller limit does what the
one with the larger limit does, and its backlog is the end of the other one. What decides whether an
entry repeats the one before it is the latest entry alone, and that one is in both.
-/

namespace BranchingStory

/-! ## The latest entries -/

namespace Backlog

/-- The latest entries of a backlog, at most so many. -/
def latest (b : Backlog) (count : Nat) : Backlog := ⟨b.beats.rtake count⟩

theorem rtake_rtake {α : Type} (l : List α) {few many : Nat} (h : few ≤ many) :
    (l.rtake many).rtake few = l.rtake few := by
  simp [List.rtake_eq_reverse_take_reverse, List.take_take, Nat.min_eq_left h]

theorem length_latest (b : Backlog) (count : Nat) :
    (b.latest count).beats.length = min count b.beats.length := by
  simp [latest, List.rtake_eq_reverse_take_reverse]

/-- Whatever is left out, the latest entry of all is there. -/
theorem getLast?_latest (b : Backlog) {count : Nat} (h : 0 < count) :
    (b.latest count).beats.getLast? = b.beats.getLast? := by
  simp [latest, List.rtake_eq_reverse_take_reverse, List.head?_take, Nat.ne_of_gt h]

theorem push_eq_latest (b : Backlog) (beat : Beat) (limit : Nat) :
    b.push beat limit = latest ⟨b.beats ++ [beat]⟩ (max limit 1) := rfl

/-- It does not matter whether older entries go before or after a new one comes. -/
theorem push_latest (b : Backlog) (beat : Beat) {few many : Nat} (h : max few 1 ≤ max many 1) :
    (b.latest (max few 1)).push beat few = (b.push beat many).latest (max few 1) := by
  obtain ⟨rest, hrest⟩ : ∃ rest, max few 1 = rest + 1 :=
    Nat.exists_eq_add_one.2 (Nat.le_max_right few 1)
  rw [push_eq_latest, push_eq_latest]
  unfold latest
  rw [rtake_rtake _ h, hrest, List.rtake_concat_succ, List.rtake_concat_succ,
    rtake_rtake _ (Nat.le_succ rest)]

theorem repeats_latest (b : Backlog) (beat : Beat) {count : Nat} (h : 0 < count) :
    (b.latest count).repeats beat = b.repeats beat := by
  unfold repeats
  rw [getLast?_latest b h]

theorem pushUnique_latest (b : Backlog) (beat : Beat) {few many : Nat}
    (h : max few 1 ≤ max many 1) :
    (b.latest (max few 1)).pushUnique beat few =
      (b.pushUnique beat many).latest (max few 1) := by
  unfold pushUnique
  rw [repeats_latest b beat (Nat.lt_of_lt_of_le Nat.one_pos (Nat.le_max_right few 1)),
    push_latest b beat h]
  split <;> rfl

end Backlog

/-- A playthrough with no more than the latest entries of its backlog. -/
def Playthrough.trimmed (limit : Nat) (p : Playthrough) : Playthrough :=
  { p with backlog := p.backlog.latest (max limit 1) }

/-- A notice of a playthrough with no more than the latest entries of its backlog. -/
def Notice.trimmed (limit : Nat) (n : Notice) : Notice :=
  match n.event with
  | .stateChanged run => ⟨n.observer, .stateChanged (run.trimmed limit)⟩
  | _ => n

namespace Engine

/-- The engine as it is with another limit of the backlog. -/
def trimmed (limit : Nat) (e : Engine) : Engine :=
  { e with settings.historyLimit := limit, run := e.run.trimmed limit }

/-- The limit is no larger than that of the engine. No backlog is ever limited to less than one. -/
def Allows (e : Engine) (limit : Nat) : Prop := max limit 1 ≤ max e.settings.historyLimit 1

variable {e : Engine} {limit : Nat} {now : Int64}

theorem Allows.of_settings {after : Engine} (h : e.Allows limit)
    (hsettings : after.settings = e.settings) : after.Allows limit := by
  unfold Allows
  rw [hsettings]
  exact h

/-! ## Walks -/

theorem record_trimmed (h : e.Allows limit) (b : Beat) :
    (e.trimmed limit).record b = (e.record b).trimmed limit := by
  have hbacklog := Backlog.pushUnique_latest e.run.backlog b h
  unfold record trimmed Playthrough.trimmed
  dsimp only
  rw [hbacklog]

theorem direct_trimmed (e : Engine) (node : String) (d : ImageDirective) :
    (e.trimmed limit).direct now node d = (e.direct now node d).trimmed limit := by
  unfold direct bringImage exchange
  dsimp only [trimmed, Playthrough.trimmed]
  split
  · rfl
  · split
    · rfl
    · split
      · split <;> rfl
      · rfl

theorem enterImage_trimmed (h : e.Allows limit) (n : Node) (d : ImageDirective) :
    (e.trimmed limit).enterImage now n d =
      ((e.enterImage now n d).1.trimmed limit, (e.enterImage now n d).2) := by
  have hdirected : (e.direct now n.id d).Allows limit := by
    obtain ⟨scene, timers, imageCounter, hd⟩ := e.direct_frame now n.id d
    rw [hd]
    exact h
  unfold enterImage
  rw [direct_trimmed, record_trimmed hdirected]
  generalize (e.direct now n.id d).record (imageBeat n d now) = directed
  cases n.next? with
  | none => rfl
  | some next =>
    dsimp only
    split <;> rfl

/-- Entering a node does the same, and adds the same entry to the backlog if it adds one. -/
theorem enter_trimmed (now : Int64) (h : e.Allows limit) (n : Node) :
    (e.trimmed limit).enter now n =
      ((e.enter now n).1.trimmed limit, (e.enter now n).2) := by
  have hplain (e : Engine) (h : e.Allows limit) (n : Node) (hnone : n.onEnter = none) :
      (e.trimmed limit).enter now n =
        ((e.enter now n).1.trimmed limit, (e.enter now n).2) := by
    obtain ⟨id, next, speaker, text, onEnter, kind⟩ := n
    obtain rfl : onEnter = none := hnone
    have hrecord := record_trimmed h
    cases kind with
    | start =>
      unfold enter Node.next?
      dsimp only
      cases given next with
      | none => exact congrArg (·, none) (hrecord _)
      | some next => rfl
    | image d =>
      cases d with
      | none => rfl
      | some d => exact enterImage_trimmed h _ d
    | operations list => rfl
    | condition branches otherwise => rfl
    | script content => rfl
    | _ => exact congrArg (·, none) (hrecord _)
  obtain ⟨id, next, speaker, text, onEnter, kind⟩ := n
  cases onEnter with
  | none => exact hplain e h _ rfl
  | some effects =>
    exact hplain { e with run.store := e.run.store.applyEffects effects } h
      ⟨id, next, speaker, text, none, kind⟩ rfl

theorem settings_enter (e : Engine) (now : Int64) (n : Node) :
    (e.enter now n).1.settings = e.settings := by
  obtain ⟨store, backlog, scene, timers, imageCounter, hframe⟩ := e.enter_frame now n
  rw [hframe]

theorem walk_trimmed (chapter : Chapter) (steps : Nat) (h : e.Allows limit) (id : String) :
    walk now chapter steps (e.trimmed limit) id =
      (walk now chapter steps e id).trimmed limit := by
  induction steps generalizing e id with
  | zero =>
    cases hnode : chapter.node? id with
    | none => rw [walk_of_missing hnode, walk_of_missing hnode]
    | some n =>
      have hentered := enter_trimmed (e := e.atNode id) now h n
      rcases hafter : (e.atNode id).enter now n with ⟨after, _ | next⟩
      · rw [hafter] at hentered
        rw [walk_of_stop hnode hafter, walk_of_stop (e := e.trimmed limit) hnode hentered]
      · rw [hafter] at hentered
        rw [walk_zero hnode hafter, walk_zero (e := e.trimmed limit) hnode hentered]
  | succ steps ih =>
    cases hnode : chapter.node? id with
    | none => rw [walk_of_missing hnode, walk_of_missing hnode]
    | some n =>
      have hentered := enter_trimmed (e := e.atNode id) now h n
      have hsettings := settings_enter (e.atNode id) now n
      rcases hafter : (e.atNode id).enter now n with ⟨after, _ | next⟩
      · rw [hafter] at hentered
        rw [walk_of_stop hnode hafter, walk_of_stop (e := e.trimmed limit) hnode hentered]
      · rw [hafter] at hentered hsettings
        rw [walk_succ hnode hafter, walk_succ (e := e.trimmed limit) hnode hentered]
        exact ih (h.of_settings hsettings) next

theorem goTo_trimmed (h : e.Allows limit) (id : String) :
    (e.trimmed limit).goTo now id = (e.goTo now id).trimmed limit := by
  unfold goTo
  have hchapter : (e.trimmed limit).currentChapter? = e.currentChapter? := rfl
  rw [hchapter]
  cases e.currentChapter? with
  | none => rfl
  | some chapter => exact walk_trimmed chapter _ h id

theorem beginChapter_trimmed (h : e.Allows limit) (chapter : Chapter) :
    (e.trimmed limit).beginChapter now chapter = (e.beginChapter now chapter).trimmed limit := by
  unfold beginChapter
  cases chapter.entry? with
  | none => rfl
  | some entry => exact walk_trimmed (e := e.atNode entry) chapter _ h entry

/-! ## Commands -/

theorem notices_trimmed (e : Engine) (nodeChanged : Bool) :
    (e.trimmed limit).notices nodeChanged = (e.notices nodeChanged).map (·.trimmed limit) := by
  unfold notices tell
  cases nodeChanged <;> simp [Function.comp_def] <;> rfl

/-- What comes of a command for an engine with another limit of the backlog. -/
def trimmedOutcome (limit : Nat) (o : Outcome) : Outcome :=
  o.map fun (e, news) => (e.trimmed limit, news.map (·.trimmed limit))

theorem settledFrom_trimmed (e : Engine) (previous : String) :
    (.ok ((e.trimmed limit).settledFrom previous) : Outcome) =
      trimmedOutcome limit (.ok (e.settledFrom previous)) := by
  unfold settledFrom
  rw [notices_trimmed]
  rfl

/-- Beginning a chapter, and telling of it, is the same for either limit. -/
theorem beginChapter_told (now : Int64) (h : e.Allows limit) (chapter : Chapter) :
    (.ok ((e.trimmed limit).beginChapter now chapter,
      ((e.trimmed limit).beginChapter now chapter).notices true) : Outcome) =
      trimmedOutcome limit
        (.ok (e.beginChapter now chapter, (e.beginChapter now chapter).notices true)) := by
  rw [beginChapter_trimmed h, notices_trimmed]
  rfl

theorem start_trimmed (h : e.Allows limit) (stage chapter : Option String) :
    (e.trimmed limit).start now stage chapter =
      trimmedOutcome limit (e.start now stage chapter) := by
  have hstory : (e.trimmed limit).story = e.story := rfl
  unfold start
  rw [hstory]
  cases hfound : e.story.resolve stage chapter with
  | error what => rfl
  | ok found =>
    have hanew : (e.trimmed limit).anew now found.1 found.2 =
        (e.anew now found.1 found.2).trimmed limit := by
      simp [anew, trimmed, Playthrough.trimmed, Backlog.latest]
    have hbegun := beginChapter_told (e := e.anew now found.1 found.2) now h found.2
    rw [← hanew] at hbegun
    exact hbegun

theorem restart_trimmed (h : e.Allows limit) :
    (e.trimmed limit).restart now = trimmedOutcome limit (e.restart now) := by
  have hrun : (e.trimmed limit).run.status = e.run.status := rfl
  unfold restart
  rw [hrun]
  split
  · rfl
  · exact start_trimmed h _ _

theorem startChapter_trimmed (h : e.Allows limit) (stage chapter : String) :
    (e.trimmed limit).startChapter now stage chapter =
      trimmedOutcome limit (e.startChapter now stage chapter) := by
  have hrun : (e.trimmed limit).run.status = e.run.status := rfl
  have hstory : (e.trimmed limit).story = e.story := rfl
  unfold startChapter
  rw [hrun, hstory]
  split
  · rfl
  · cases e.story.resolve (some stage) (some chapter) with
    | error what => rfl
    | ok found => exact beginChapter_told (e := e.movedInto found.1 found.2) now h found.2

/-- Of the end of a chapter the same is told. -/
theorem finishChapter_trimmed (e : Engine) (n : Node) :
    (.ok ((e.trimmed limit).finishChapter n) : Outcome) =
      trimmedOutcome limit (.ok (e.finishChapter n)) := by
  let ended : Engine := { e with run.status := .ended }
  let told : List Notice := e.tell (.chapterEnded (e.endingAt n)) ++ e.tell .storyEnded
  have htold : told.map (·.trimmed limit) = told := by
    simp [told, tell, Notice.trimmed, Function.comp_def]
  have hfinished : (e.trimmed limit).finishChapter n =
      (ended.trimmed limit, (told ++ ended.notices false).map (·.trimmed limit)) := by
    rw [List.map_append, htold, ← notices_trimmed]
    rfl
  rw [hfinished]
  rfl

theorem advance_trimmed (h : e.Allows limit) :
    (e.trimmed limit).advance now = trimmedOutcome limit (e.advance now) := by
  have hhindrance : (e.trimmed limit).hindrance? = e.hindrance? := rfl
  have hnode : (e.trimmed limit).currentNode? = e.currentNode? := rfl
  unfold advance
  rw [hhindrance, hnode]
  cases e.hindrance? with
  | some refusal => rfl
  | none =>
    cases e.currentNode? with
    | none => rfl
    | some n =>
      dsimp only
      split
      · rfl
      · exact finishChapter_trimmed e n
      · rfl
      · rw [goTo_trimmed h, settledFrom_trimmed]

theorem recordChoice_trimmed (h : e.Allows limit) (n : Node) (index : UInt64) (c : Choice) :
    (e.trimmed limit).recordChoice now n index c =
      (e.recordChoice now n index c).trimmed limit := by
  have hbacklog (beat : Beat) := Backlog.push_latest e.run.backlog beat h
  unfold recordChoice trimmed Playthrough.trimmed
  dsimp only
  rw [hbacklog]

theorem choose_trimmed (h : e.Allows limit) (index : UInt64) :
    (e.trimmed limit).choose now index = trimmedOutcome limit (e.choose now index) := by
  have hhindrance : (e.trimmed limit).hindrance? = e.hindrance? := rfl
  have hnode : (e.trimmed limit).currentNode? = e.currentNode? := rfl
  have hunlocked (c : Choice) : (e.trimmed limit).unlocked c = e.unlocked c := rfl
  unfold choose
  rw [hhindrance, hnode]
  cases e.hindrance? with
  | some refusal => rfl
  | none =>
    cases e.currentNode? with
    | none => rfl
    | some n =>
      dsimp only
      cases n.kind with
      | choice choices =>
        dsimp only
        cases choices[index.toNat]? with
        | none => rfl
        | some c =>
          dsimp only
          rw [hunlocked, recordChoice_trimmed h]
          split
          · cases c.target? with
            | none => exact settledFrom_trimmed ..
            | some next =>
              have hallows : (e.recordChoice now n index c).Allows limit := h
              simp only [Option.elim_some]
              rw [goTo_trimmed hallows, settledFrom_trimmed]
          · rfl
      | _ => rfl

/-! ## Timers -/

theorem fire_trimmed (h : e.Allows limit) (action : Deferred) :
    (e.trimmed limit).fire now action = (e.fire now action).trimmed limit := by
  cases action with
  | removeImage serial => rfl
  | showImage node d => rfl
  | moveOn next => exact goTo_trimmed h next

/-- What comes of letting timers fire, for an engine with another limit of the backlog. -/
def Polled.trimmed (limit : Nat) (p : Polled) : Polled :=
  { p with engine := p.engine.trimmed limit, notices := p.notices.map (·.trimmed limit) }

theorem pollWithin_trimmed (now : Int64) (most : Nat) (h : e.Allows limit) :
    pollWithin now most (e.trimmed limit) = (pollWithin now most e).trimmed limit := by
  induction most generalizing e with
  | zero => rfl
  | succ most ih =>
    have htimers : (e.trimmed limit).timers = e.timers := rfl
    unfold pollWithin
    rw [htimers]
    cases e.timers.popDue now with
    | none => rfl
    | some popped =>
      obtain ⟨action, timers⟩ := popped
      have hpopped : Allows { e with timers } limit := h
      have hfired : { e.trimmed limit with timers }.fire now action =
          ({ e with timers }.fire now action).trimmed limit := fire_trimmed hpopped action
      have hnext := hpopped.of_settings (settings_fire { e with timers } now action)
      have hnode : (e.trimmed limit).run.node = e.run.node := rfl
      dsimp only
      rw [hfired, hnode]
      generalize { e with timers }.fire now action = next at hnext ⊢
      unfold settledFrom
      dsimp only
      rw [ih hnext]
      unfold Polled.trimmed
      dsimp only
      rw [List.map_append, notices_trimmed]
      rfl

/-- What comes of a request, for an engine with another limit of the backlog. -/
def trimmedResponse (limit : Nat) (response : Response) : Response :=
  response.map fun (answer, e, news) => (answer, e.trimmed limit, news.map (·.trimmed limit))

theorem response_trimmed (o : Outcome) :
    Outcome.response (trimmedOutcome limit o) = trimmedResponse limit (Outcome.response o) := by
  cases o <;> rfl

/-- A call does the same for either limit, and is answered or refused in the same way. -/
theorem respond_trimmed (now : Int64) (h : e.Allows limit) (c : Call) :
    (e.trimmed limit).respond now (.call c) = trimmedResponse limit (e.respond now (.call c)) := by
  cases c with
  | start stage chapter =>
    change Outcome.response ((e.trimmed limit).start now stage chapter) = _
    rw [start_trimmed h, response_trimmed]
    rfl
  | restart =>
    change Outcome.response ((e.trimmed limit).restart now) = _
    rw [restart_trimmed h, response_trimmed]
    rfl
  | startChapter stage chapter =>
    change Outcome.response ((e.trimmed limit).startChapter now stage chapter) = _
    rw [startChapter_trimmed h, response_trimmed]
    rfl
  | advance =>
    change Outcome.response ((e.trimmed limit).advance now) = _
    rw [advance_trimmed h, response_trimmed]
    rfl
  | choose index =>
    change Outcome.response ((e.trimmed limit).choose now index) = _
    rw [choose_trimmed h, response_trimmed]
    rfl
  | poll =>
    have hpolled := pollWithin_trimmed now e.pollLimit h
    change Except.ok (_, (pollWithin now e.pollLimit (e.trimmed limit)).engine, _) = _
    unfold respond poll
    have hlimit : (e.trimmed limit).pollLimit = e.pollLimit := rfl
    rw [hlimit, hpolled]
    rfl

end Engine

/-! ## Engines at work -/

namespace Performance

/-- What a request is answered, or why it fails. -/
def reply (p : Performance) (now : Int64) (r : Request) : Except Failure Answer :=
  match Procedure.perform now r p with
  | .ok answer _ => .ok answer
  | .error failure _ => .error failure

/-- An engine at work with another limit of the backlog. -/
def trimmed (limit : Nat) (p : Performance) : Performance :=
  ⟨p.engine.trimmed limit, p.heard.map (·.trimmed limit)⟩

variable {p : Performance} {limit : Nat}

theorem allows_after (h : p.engine.Allows limit) (now : Int64) (c : Call) :
    (p.after now (.call c)).engine.Allows limit := by
  rcases p.after_eq_or_ok now (.call c) with hsame | ⟨answer, hok⟩
  · rwa [hsame]
  · obtain ⟨news, hresponse, -⟩ := of_perform hok
    obtain ⟨course, hcourse, hfinal⟩ := Engine.course_of_call (Engine.call_of_respond hresponse)
    rw [← hfinal]
    exact h.of_settings (Engine.settings_final hcourse)

/-- With either limit a call is answered alike, and what comes of it differs by the limit only. -/
theorem perform_trimmed (h : p.engine.Allows limit) (now : Int64) (c : Call) :
    (p.trimmed limit).reply now (.call c) = p.reply now (.call c) ∧
      (p.trimmed limit).after now (.call c) = (p.after now (.call c)).trimmed limit := by
  have hresponse := Engine.respond_trimmed now h c
  unfold reply after
  rw [Procedure.perform_eq, Procedure.perform_eq]
  unfold trimmed
  dsimp only
  rw [hresponse]
  cases p.engine.respond now (.call c) with
  | error failure => exact ⟨rfl, rfl⟩
  | ok response =>
    refine ⟨rfl, ?_⟩
    simp [Engine.trimmedResponse, Except.map, Procedure.settle]

/-- What comes after some calls, each made at its time. -/
def afterCalls (p : Performance) (calls : List (Int64 × Call)) : Performance :=
  p.afterAll (calls.map fun c => (c.1, .call c.2))

theorem afterCalls_trimmed (h : p.engine.Allows limit) (calls : List (Int64 × Call)) :
    (p.trimmed limit).afterCalls calls = (p.afterCalls calls).trimmed limit ∧
      (p.afterCalls calls).engine.Allows limit := by
  induction calls generalizing p with
  | nil => exact ⟨rfl, h⟩
  | cons first rest ih =>
    obtain ⟨-, hafter⟩ := perform_trimmed h first.1 first.2
    have hrest := ih (allows_after h first.1 first.2)
    rw [← hafter] at hrest
    exact hrest

end Performance

/-! ## Main result -/

/-- A new engine with the given limit of the backlog. -/
def Performance.limited (s : Story) (settings : Settings) (observers : Nat) (limit : Nat) :
    Performance where
  engine := { story := s, settings := { settings with historyLimit := limit }, observers }

/-- An engine that has no backlog yet can be thought of as one with a larger limit, trimmed. -/
theorem Performance.limited_trimmed (s : Story) (settings : Settings) (observers : Nat)
    (few many : Nat) :
    (limited s settings observers many).trimmed few = limited s settings observers few := by
  simp [limited, trimmed, Engine.trimmed, Playthrough.trimmed, Backlog.latest]

/-- Two new engines that differ in the limit of the backlog alone answer the same to whatever is
asked, tell of the same events, and have the same timers and the same playthroughs but for the
backlog. The smaller backlog is the end of the other one, of as many entries as its limit allows. -/
theorem Performance.limit_affects_backlog_only (s : Story) (settings : Settings) (observers : Nat)
    {few many : Nat} (h : few ≤ many) (calls : List (Int64 × Call)) :
    let small := (limited s settings observers few).afterCalls calls
    let large := (limited s settings observers many).afterCalls calls
    (∀ now c, small.reply now (.call c) = large.reply now (.call c)) ∧
    small.heard = large.heard.map (·.trimmed few) ∧
    small.engine.timers = large.engine.timers ∧
    small.engine.imageCounter = large.engine.imageCounter ∧
    { small.engine.run with backlog := large.engine.run.backlog } = large.engine.run ∧
    small.engine.run.backlog.beats = large.engine.run.backlog.beats.drop
      (large.engine.run.backlog.beats.length
        - min (max few 1) large.engine.run.backlog.beats.length) ∧
    small.engine.run.backlog.beats.length ≤ max few 1 ∧
    large.engine.run.backlog.beats.length ≤ max many 1 ∧
    small.engine.run.backlog.beats.getLast? = large.engine.run.backlog.beats.getLast? := by
  intro small large
  have hallows {limit : Nat} (hlimit : limit ≤ many) :
      (limited s settings observers many).engine.Allows limit :=
    max_le_max_right 1 hlimit
  have htrimmed {limit : Nat} (hlimit : limit ≤ many) :
      (limited s settings observers limit).afterCalls calls = large.trimmed limit := by
    rw [← limited_trimmed s settings observers limit many]
    exact (afterCalls_trimmed (hallows hlimit) calls).1
  have hsmall : small = large.trimmed few := htrimmed h
  have hlarge : large = large.trimmed many := htrimmed (Nat.le_refl many)
  have hlength (limit : Nat) :
      (large.trimmed limit).engine.run.backlog.beats.length ≤ max limit 1 := by
    change (large.engine.run.backlog.latest _).beats.length ≤ _
    rw [Backlog.length_latest]
    exact Nat.min_le_left ..
  rw [hsmall]
  refine ⟨fun now c => ?_, rfl, rfl, rfl, rfl, ?_, hlength few, ?_, ?_⟩
  · exact (perform_trimmed (afterCalls_trimmed (hallows h) calls).2 now c).1
  · change large.engine.run.backlog.beats.rtake (max few 1) = _
    rw [List.rtake]
    congr 1
    omega
  · rw [hlarge]
    exact hlength many
  · exact Backlog.getLast?_latest _ (Nat.lt_of_lt_of_le Nat.one_pos (Nat.le_max_right few 1))

namespace Gallery

/-- The calls that hang the second picture on the wall. -/
def hanging : List (Int64 × Call) := [(0, .start none none), (300, .poll), (700, .poll)]

/-- One backlog has the second picture and the label, and the other one the label only. -/
theorem limit_affects_backlog_only_hanging :
    let small := (Performance.limited story {} 1 0).afterCalls hanging
    let large := (Performance.limited story {} 1 2).afterCalls hanging
    large.engine.run.backlog.beats.map (·.node) = ["dusk", "label"] ∧
      small.engine.run.backlog.beats = large.engine.run.backlog.beats.drop 1 := by
  have hlarge : ((Performance.limited story {} 1 2).afterCalls hanging).engine.run.backlog.beats.map
      (·.node) = ["dusk", "label"] := by decide +kernel
  have hmain := Performance.limit_affects_backlog_only story {} 1 (by decide : 0 ≤ 2) hanging
  generalize (Performance.limited story {} 1 0).afterCalls hanging = small at hmain ⊢
  generalize (Performance.limited story {} 1 2).afterCalls hanging = large at hlarge hmain ⊢
  have hlength : large.engine.run.backlog.beats.length = 2 := by
    rw [← List.length_map (·.node), hlarge]
    rfl
  obtain ⟨-, -, -, -, -, hbeats, -⟩ := hmain
  rw [hlength] at hbeats
  exact ⟨hlarge, hbeats⟩

end Gallery
end BranchingStory
