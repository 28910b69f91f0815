import BranchingStory.Proofs.Continuing
/-!
# Numbers from a save

A load takes the serial numbers of images and the time played from the text as they are, however
large, and later calls add to them. What they add is known: a serial number for each node that was
entered and brings an image, at once or by a timer, and the time since the load. So there is no
overflow as long as the text leaves that much room, and for the time played beyond it only until the
story is started anew.
-/

namespace BranchingStory

/-! ## Calls in which serial numbers run out -/

namespace Engine

variable {e : Engine} {now : Int64}

theorem counter_direct (e : Engine) (now : Int64) (node : String) (d : ImageDirective) :
    (e.direct now node d).imageCounter = e.imageCounter ∨
      (e.direct now node d).imageCounter = e.imageCounter + 1 := by
  have hd := directs e now node d
  generalize e.direct now node d = after at hd
  cases hd with
  | empty => exact .inl rfl
  | bring => exact .inr rfl
  | replace => exact .inr rfl
  | exchange =>
    unfold exchange
    cases d.timing with
    | sequential => exact .inl rfl
    | crossfade => exact .inr rfl

theorem counter_enter (e : Engine) (now : Int64) (n : Node) :
    (e.enter now n).1.imageCounter = e.imageCounter ∨
      (e.enter now n).1.imageCounter = e.imageCounter + 1 := by
  have hentered := enters e now n
  generalize e.enter now n = after at hentered
  cases hentered with
  | plain => exact .inl rfl
  | image d => exact counter_direct e now n.id d
  | wait d => exact counter_direct e now n.id d

end Engine

/-- From one moment to the next serial numbers run out just where an image comes after which there
is no number left. -/
theorem Follows.counter_lt_iff {a b : Moment} {now : Int64} (h : Follows now a b) :
    b.engine.imageCounter < a.engine.imageCounter ↔
      b.engine.imageCounter ≠ a.engine.imageCounter ∧
        nextSerial a.engine.imageCounter = .error .addition := by
  have hcounter : b.engine.imageCounter = a.engine.imageCounter ∨
      b.engine.imageCounter = a.engine.imageCounter + 1 := by
    rcases h with ⟨-, -, -⟩ | hfires
    · exact Engine.counter_enter ..
    · cases hfires with
      | remove => exact .inl rfl
      | bring => exact .inr rfl
      | moveOn => exact .inl rfl
  rcases hcounter with hsame | hnext
  · rw [hsame]
    exact ⟨fun hless => absurd hless (UInt64.lt_irrefl _), fun ⟨hne, _⟩ => absurd rfl hne⟩
  · rw [hnext, ← add_one_lt_iff]
    exact ⟨fun hless => ⟨UInt64.ne_of_lt hless, hless⟩, And.right⟩

namespace Engine

variable {e : Engine} {now : Int64}

theorem fallsBack_eq_false (a : Moment) (rest : List Moment) :
    fallsBack a.engine.imageCounter rest = false ↔
      (a :: rest).IsChain fun a b => a.engine.imageCounter ≤ b.engine.imageCounter := by
  induction rest generalizing a with
  | nil => exact ⟨fun _ => .singleton a, fun _ => rfl⟩
  | cons b rest ih =>
    simp only [fallsBack, Bool.or_eq_false_iff, ih b, decide_eq_false_iff_not, UInt64.not_lt,
      List.isChain_cons_cons]

/-- A call comes to an answer or a refusal just when serial numbers do not run out. -/
theorem attempt_eq (e : Engine) (now : Int64) (c : Call) :
    (∃ course, e.course now c = .ok course ∧ ¬ course.Steady ∧
      e.attempt now c = .error .addition) ∨
    ((∀ course, e.course now c = .ok course → course.Steady) ∧
      e.attempt now c = .ok ((e.call now c).map (·.1), e.after now c)) := by
  have hruns : e.runsOut now c = false ↔ ∀ course, e.course now c = .ok course → course.Steady := by
    unfold runsOut
    cases e.course now c with
    | error refusal => simp only [reduceCtorEq, false_implies, implies_true]
    | ok course => simp only [Except.ok.injEq, forall_eq', fallsBack_eq_false, Course.Steady,
        Course.moments]
  unfold attempt
  cases hout : e.runsOut now c with
  | false => exact .inr ⟨hruns.1 hout, if_neg Bool.false_ne_true⟩
  | true =>
    rw [hout] at hruns
    obtain ⟨course, hcourse, hunsteady⟩ : ∃ course, e.course now c = .ok course ∧ ¬ course.Steady :=
      by simpa using hruns
    exact .inl ⟨course, hcourse, hunsteady, if_pos rfl⟩

/-- What is answered to calls that are made one after the other, each at its time, and the engine
after them, unless serial numbers run out. -/
def attempts (e : Engine) :
    List (Int64 × Call) → Except Overflow (List (Except Refusal Answer) × Engine)
  | [] => .ok ([], e)
  | (now, c) :: rest => do
    let (answer, next) ← e.attempt now c
    let (answers, last) ← next.attempts rest
    return (answer :: answers, last)

/-- Calls come to what they come to without bounds, as long as serial numbers do not run out. -/
theorem attempts_eq_ok {calls : List (Int64 × Call)}
    {played : List (Except Refusal Answer) × Engine} :
    e.attempts calls = .ok played ↔ e.Steadily calls ∧ e.play calls = played := by
  induction calls generalizing e played with
  | nil =>
    constructor
    · intro h
      exact ⟨trivial, Except.ok.inj h⟩
    · rintro ⟨-, h⟩
      exact congrArg Except.ok h
  | cons first rest ih =>
    obtain ⟨now, c⟩ := first
    unfold attempts Steadily play
    rcases e.attempt_eq now c with ⟨course, hcourse, hunsteady, hattempt⟩ | ⟨hsteady, hattempt⟩
    · rw [hattempt]
      constructor
      · intro h
        cases h
      · rintro ⟨hsteadily, -⟩
        exact absurd (hsteadily.1 course hcourse) hunsteady
    · rw [hattempt]
      change ((e.after now c).attempts rest).bind _ = _ ↔ _
      refine bind_eq_ok.trans ⟨?_, ?_⟩
      · rintro ⟨⟨answers, last⟩, hrest, hplayed⟩
        obtain ⟨hsteadily, hplay⟩ := ih.1 hrest
        refine ⟨⟨hsteady, hsteadily⟩, ?_⟩
        rw [hplay]
        exact Except.ok.inj hplayed
      · rintro ⟨⟨-, hsteadily⟩, hplayed⟩
        exact ⟨_, ih.2 ⟨hsteadily, rfl⟩, congrArg Except.ok hplayed⟩

end Engine

/-! ## Serial numbers -/

/-- Whether a node brings an image. -/
def Node.bringsImage (n : Node) : Bool := n.directive?.any (!·.isRemoval)

namespace Engine

/-- How many images timers are still to bring. -/
def toBring (e : Engine) : Nat := e.timers.live.countP (·.action.brings)

/-- Serial numbers up to this one are all that are given out or will be by timers. -/
structure Reserves (e : Engine) (last : Nat) : Prop where
  counter : e.imageCounter.toNat + e.toBring ≤ last
  images : ∀ i ∈ e.run.scene.images, i.serial.toNat + e.toBring ≤ last

namespace Reserves

variable {e after : Engine} {now : Int64} {last more : Nat}

/-- There are serial numbers for a save. -/
theorem canSettle (h : e.Reserves last) (hroom : last < UInt64.size) : e.CanSettle := by
  have hserials : (e.run.scene.maxSerial?.getD 0).toNat + e.toBring ≤ last := by
    unfold Scene.maxSerial?
    cases hmax : (e.run.scene.images.map (·.serial)).max? with
    | none => exact Nat.le_trans (Nat.add_le_add_right (Nat.zero_le _) _) h.counter
    | some m =>
      obtain ⟨i, hi, rfl⟩ := List.mem_map.1 (List.max?_eq_some_iff.1 hmax).1
      exact h.images i hi
  unfold CanSettle
  rw [← List.countP_eq_length_filter]
  refine Nat.lt_of_le_of_lt ?_ hroom
  rcases Std.MaxEqOr.max_eq_or e.imageCounter (e.run.scene.maxSerial?.getD 0) with hmax | hmax
  · rw [hmax]
    exact h.counter
  · rw [hmax]
    exact hserials

/-- No image has come on stage. -/
theorem of_kept (h : e.Reserves last) (more : Nat)
    (hcounter : after.imageCounter = e.imageCounter)
    (hbring : after.toBring ≤ e.toBring + more)
    (himages : ∀ i ∈ after.run.scene.images, ∃ j ∈ e.run.scene.images, j.serial = i.serial) :
    after.Reserves (last + more) where
  counter := by
    have hlast := h.counter
    rw [hcounter]
    omega
  images i hi := by
    obtain ⟨j, hj, hserial⟩ := himages i hi
    have hlast := h.images j hj
    rw [← hserial]
    omega

theorem showImage (h : e.Reserves last) (hroom : last + 1 < UInt64.size) (node : String)
    (d : ImageDirective) :
    e.imageCounter ≤ (e.showImage node d).imageCounter ∧
      (e.showImage node d).Reserves (last + 1) := by
  have hlast := h.counter
  have hserial : (e.imageCounter + 1).toNat = e.imageCounter.toNat + 1 := by
    rw [toNat_add_one]
    exact Nat.mod_eq_of_lt (by change _ + 1 < UInt64.size; omega)
  have hcounter : e.imageCounter ≤ e.imageCounter + 1 := by
    rw [UInt64.le_iff_toNat_le, hserial]
    exact Nat.le_succ _
  refine ⟨hcounter, ?_, fun i hi => ?_⟩
  · change (e.imageCounter + 1).toNat + e.toBring ≤ last + 1
    omega
  · change i.serial.toNat + e.toBring ≤ last + 1
    rcases List.mem_append.1 hi with hi | hi
    · exact Nat.le_succ_of_le (h.images i (List.mem_of_mem_filter hi))
    · obtain rfl := List.mem_singleton.1 hi
      change (e.imageCounter + 1).toNat + e.toBring ≤ last + 1
      omega

/-- A directive takes up one serial number for its image, now or when the image before it has gone.
-/
theorem direct (h : e.Reserves last) (node : String) (d : ImageDirective)
    (hroom : last + (if d.isRemoval then 0 else 1) < UInt64.size) :
    e.imageCounter ≤ (e.direct now node d).imageCounter ∧
      (e.direct now node d).Reserves (last + if d.isRemoval then 0 else 1) := by
  have hcleared : (e.cleared d).Reserves last := by
    refine h.of_kept 0 rfl ?_ fun i hi => ⟨i, hi, rfl⟩
    rw [toBring, cleared, Timers.live_cancel]
    exact (List.filter_sublist ..).countP_le
  have hd := directs e now node d
  generalize e.direct now node d = after at hd
  change (e.cleared d).imageCounter ≤ _ ∧ _
  cases hd with
  | empty hremoval =>
    rw [if_pos hremoval]
    refine ⟨UInt64.le_refl _, hcleared.of_kept 0 rfl (Nat.le_refl _) fun i hi => ?_⟩
    exact ⟨i, List.mem_of_mem_filter hi, rfl⟩
  | bring hpicture =>
    rw [if_neg (by simp [hpicture])] at hroom ⊢
    exact hcleared.showImage hroom node d
  | replace hpicture resident =>
    rw [if_neg (by simp [hpicture])] at hroom ⊢
    refine Reserves.showImage (e := { e.cleared d with
      run.scene := (e.cleared d).run.scene.remove resident.serial }) ?_ hroom node d
    refine hcleared.of_kept 0 rfl (Nat.le_refl _) fun i hi => ?_
    exact ⟨i, List.mem_of_mem_filter hi, rfl⟩
  | exchange hpicture resident hresident effect =>
    rw [if_neg (by simp [hpicture])] at hroom ⊢
    have hserials {e' : Engine}
        (hscene : e'.run.scene =
          (e.cleared d).run.scene.beginExit resident.serial effect d.exitDuration) :
        ∀ i ∈ e'.run.scene.images, ∃ j ∈ (e.cleared d).run.scene.images, j.serial = i.serial := by
      intro i hi
      rw [hscene] at hi
      obtain ⟨j, hj, hserial, -⟩ := Scene.isSame_of_mem_beginExit hi
      exact ⟨j, hj, hserial⟩
    unfold exchange
    cases d.timing with
    | sequential =>
      refine ⟨UInt64.le_refl _, hcleared.of_kept 1 rfl ?_ (hserials rfl)⟩
      simp [toBring, schedule, Deferred.brings]
    | crossfade =>
      have hleaving : (schedule { e.cleared d with
          run.scene := (e.cleared d).run.scene.beginExit resident.serial effect d.exitDuration }
          (dueAfter now ((e.cleared d).exitDuration d))
          (.removeImage resident.serial)).Reserves last := by
        refine hcleared.of_kept 0 rfl ?_ (hserials rfl)
        simp [toBring, schedule, Deferred.brings]
      exact hleaving.showImage hroom node d

theorem enter (h : e.Reserves last) (now : Int64) (n : Node)
    (hroom : last + (if n.bringsImage then 1 else 0) < UInt64.size) :
    e.imageCounter ≤ (e.enter now n).1.imageCounter ∧
      (e.enter now n).1.Reserves (last + if n.bringsImage then 1 else 0) := by
  have hdirect {d : ImageDirective} (hd : n.directive? = some d) :
      e.imageCounter ≤ (e.direct now n.id d).imageCounter ∧
        (e.direct now n.id d).Reserves (last + if n.bringsImage then 1 else 0) := by
    have hbrings : (if n.bringsImage then 1 else 0) = if d.isRemoval then 0 else 1 := by
      unfold Node.bringsImage
      simp only [hd, Option.any_some]
      cases d.isRemoval <;> rfl
    rw [hbrings] at hroom ⊢
    exact h.direct n.id d hroom
  have hentered := enters e now n
  generalize e.enter now n = after at hentered
  cases hentered with
  | plain =>
    exact ⟨UInt64.le_refl _, h.of_kept _ rfl (Nat.le_add_right ..) fun i hi => ⟨i, hi, rfl⟩⟩
  | image d hd => exact ⟨(hdirect hd).1, (hdirect hd).2.counter, (hdirect hd).2.images⟩
  | wait d hd next _ _ _ due _ store backlog =>
    obtain ⟨hcounter, hreserves⟩ := hdirect hd
    refine ⟨hcounter, hreserves.of_kept 0 rfl ?_ fun i hi => ⟨i, hi, rfl⟩⟩
    simp [toBring, told, schedule, Deferred.brings]

/-- A timer that fires takes up the number that was reserved for its image. -/
theorem fires {a b : Moment} (h : a.engine.Reserves last) (hroom : last < UInt64.size)
    (hfires : Fires now a b) :
    a.engine.imageCounter ≤ b.engine.imageCounter ∧ b.engine.Reserves last := by
  have hless {action : Deferred} {timers : Timers}
      (hdue : a.engine.timers.popDue now = some (action, timers)) :
      toBring { a.engine with timers } + (if action.brings then 1 else 0) = a.engine.toBring := by
    obtain ⟨timer, hlive, -, rfl, rfl, -⟩ := Timers.of_popDue hdue
    unfold toBring
    dsimp only
    rw [Timers.live_erase, (List.perm_cons_erase hlive).countP_eq, List.countP_cons]
  cases hfires with
  | remove hdue =>
    refine ⟨UInt64.le_refl _, h.of_kept 0 rfl (hless hdue).le fun i hi => ?_⟩
    exact ⟨i, List.mem_of_mem_filter hi, rfl⟩
  | moveOn hdue =>
    exact ⟨UInt64.le_refl _, h.of_kept 0 rfl (hless hdue).le fun i hi => ⟨i, hi, rfl⟩⟩
  | bring hdue =>
    rename_i node d timers
    have hone : toBring { a.engine with timers } + 1 = a.engine.toBring := hless hdue
    have hcounter := h.counter
    obtain ⟨less, rfl⟩ : ∃ less, last = less + 1 := ⟨last - 1, by omega⟩
    have hreserves : Reserves { a.engine with timers } less := by
      refine ⟨?_, fun i hi => ?_⟩
      · change a.engine.imageCounter.toNat + toBring { a.engine with timers } ≤ less
        omega
      · have hlast := h.images i hi
        omega
    exact hreserves.showImage hroom node d

theorem enters {a b : Moment} (h : a.engine.Reserves last)
    (hroom : last + (b.entered.toList.countP (·.bringsImage)) < UInt64.size)
    (henters : Enters now a b) : a.engine.imageCounter ≤ b.engine.imageCounter ∧
      b.engine.Reserves (last + b.entered.toList.countP (·.bringsImage)) := by
  obtain ⟨hchapter, honward, hnode⟩ := henters
  rename_i chapter id n
  have hat : (a.engine.atNode id).Reserves last := ⟨h.counter, h.images⟩
  have hone : (some n).toList.countP (·.bringsImage) = if n.bringsImage then 1 else 0 := by
    rw [Option.toList_some, List.countP_singleton]
  dsimp only at hroom ⊢
  rw [hone] at hroom ⊢
  exact hat.enter now n hroom

theorem follows {a b : Moment} (h : a.engine.Reserves last)
    (hroom : last + b.entered.toList.countP (·.bringsImage) < UInt64.size)
    (hfollows : Follows now a b) : a.engine.imageCounter ≤ b.engine.imageCounter ∧
      b.engine.Reserves (last + b.entered.toList.countP (·.bringsImage)) := by
  rcases hfollows with henters | hfires
  · exact h.enters hroom henters
  · have hnone : b.entered = none := by cases hfires <;> rfl
    rw [hnone] at hroom ⊢
    exact h.fires hroom hfires

/-- A call begins with the numbers that are given out, or with fewer. -/
theorem opens {c : Call} {a : Moment} (h : e.Reserves last) (hopens : Opens e now c a) :
    a.engine.Reserves last := by
  cases hopens with
  | anew =>
    refine h.of_kept 0 rfl (Nat.zero_le _) fun i hi => ?_
    exact absurd hi List.not_mem_nil
  | movedInto =>
    refine h.of_kept 0 rfl (Nat.zero_le _) fun i hi => ⟨i, ?_, rfl⟩
    dsimp only [movedInto, atNode] at hi
    split at hi
    · exact absurd hi List.not_mem_nil
    · exact List.mem_of_mem_filter hi
  | _ => exact ⟨h.counter, h.images⟩

/-- As long as there are numbers for the nodes that are entered, they do not run out. -/
theorem through {a : Moment} {rest : List Moment} (h : a.engine.Reserves last)
    (hchain : (a :: rest).IsChain (Follows now))
    (hroom : last + (rest.filterMap (·.entered)).countP (·.bringsImage) < UInt64.size) :
    (a :: rest).IsChain (fun a b => a.engine.imageCounter ≤ b.engine.imageCounter) ∧
      (a.engine.through rest).Reserves
        (last + (rest.filterMap (·.entered)).countP (·.bringsImage)) := by
  induction rest generalizing a last with
  | nil => exact ⟨.singleton a, h⟩
  | cons b rest ih =>
    obtain ⟨hfollows, hrest⟩ := List.isChain_cons_cons.1 hchain
    have hcount : ((b :: rest).filterMap (·.entered)).countP (·.bringsImage) =
        b.entered.toList.countP (·.bringsImage) +
          (rest.filterMap (·.entered)).countP (·.bringsImage) := by
      rw [← List.countP_append]
      cases hentered : b.entered <;> simp [hentered]
    rw [hcount, ← Nat.add_assoc] at hroom ⊢
    obtain ⟨hcounter, hb⟩ := h.follows (by omega) hfollows
    obtain ⟨hsteady, hlast⟩ := ih hb hrest hroom
    exact ⟨.cons_cons hcounter hsteady, hlast⟩

theorem course {c : Call} {course : Course} (h : e.Reserves last)
    (hcourse : e.course now c = .ok course)
    (hroom : last + course.entered.countP (·.bringsImage) < UInt64.size) :
    course.Steady ∧ course.final.Reserves (last + course.entered.countP (·.bringsImage)) :=
  (h.opens (course_opens hcourse).1).through (isChain_course hcourse) hroom

end Reserves

/-- The nodes that are entered while calls are made. -/
def enteredDuring (e : Engine) : List (Int64 × Call) → List Node
  | [] => []
  | (now, c) :: rest =>
    match e.course now c with
    | .ok course => course.entered ++ (e.after now c).enteredDuring rest
    | .error _ => (e.after now c).enteredDuring rest

theorem Reserves.play {e : Engine} {last : Nat} {calls : List (Int64 × Call)}
    (h : e.Reserves last)
    (hroom : last + (e.enteredDuring calls).countP (·.bringsImage) < UInt64.size) :
    e.Steadily calls ∧ (e.play calls).2.Reserves
      (last + (e.enteredDuring calls).countP (·.bringsImage)) := by
  induction calls generalizing e last with
  | nil => exact ⟨trivial, h⟩
  | cons first rest ih =>
    obtain ⟨now, c⟩ := first
    have hlast : (e.play ((now, c) :: rest)).2 = ((e.after now c).play rest).2 := rfl
    have hsteadily (hcourses : ∀ course, e.course now c = .ok course → course.Steady)
        (hrest : (e.after now c).Steadily rest) : e.Steadily ((now, c) :: rest) :=
      ⟨hcourses, hrest⟩
    cases hcourse : e.course now c with
    | error refusal =>
      have hentered : e.enteredDuring ((now, c) :: rest) = e.enteredDuring rest := by
        rw [enteredDuring, hcourse, after_of_refused hcourse]
      rw [hentered] at hroom ⊢
      rw [after_of_refused hcourse] at hlast hsteadily
      obtain ⟨hsteady, hreserves⟩ := ih h hroom
      exact ⟨hsteadily (by simp [hcourse]) hsteady, hlast ▸ hreserves⟩
    | ok course =>
      have hentered : e.enteredDuring ((now, c) :: rest) =
          course.entered ++ course.final.enteredDuring rest := by
        rw [enteredDuring, hcourse, after_of_course hcourse]
      rw [hentered, List.countP_append, ← Nat.add_assoc] at hroom ⊢
      rw [after_of_course hcourse] at hlast hsteadily
      obtain ⟨hsteady, hfinal⟩ := h.course hcourse (by omega)
      obtain ⟨hrest, hreserves⟩ := ih hfinal hroom
      refine ⟨hsteadily (fun other hother => ?_) hrest, hlast ▸ hreserves⟩
      obtain rfl := Except.ok.inj (hcourse.symm.trans hother)
      exact hsteady

/-- After a load all numbers up to the largest one of its images are given out. -/
theorem reserves_resume (e : Engine) (now : Int64) (p : Playthrough) :
    (e.resume now p).Reserves (e.resume now p).imageCounter.toNat where
  counter := Nat.le_refl _
  images _ hi := UInt64.le_iff_toNat_le.1
    (UInt64.le_trans (Scene.serial_le_maxSerial hi) Std.right_le_max)

/-! ## The time played -/

/-- A call leaves the time played before the start and the start as they are, unless it is a start.
-/
theorem times_course {e : Engine} {now : Int64} {c : Call} {course : Course}
    (h : e.course now c = .ok course) :
    (course.final.run.startedAt = e.run.startedAt ∧ course.final.run.playTime = e.run.playTime) ∨
      (course.final.run.startedAt = now ∧ course.final.run.playTime = 0) := by
  obtain ⟨m, hm, hfinal⟩ := course.exists_final
  have hkept := course_keeps (I := fun m =>
    m.engine.run.startedAt = course.opening.engine.run.startedAt ∧
      m.engine.run.playTime = course.opening.engine.run.playTime) h ⟨rfl, rfl⟩ ?_ m hm
  · rw [← hfinal, hkept.1, hkept.2]
    have hopens := (course_opens h).1
    generalize course.opening = a at hopens
    cases hopens with
    | anew => exact .inr ⟨rfl, rfl⟩
    | _ => exact .inl ⟨rfl, rfl⟩
  · rintro a b (⟨hchapter, honward, hnode⟩ | hfires) ha
    · rename_i chapter id n
      obtain ⟨store, backlog, scene, timers, imageCounter, hframe⟩ :=
        (a.engine.atNode id).enter_frame now n
      dsimp only
      rw [hframe]
      exact ha
    · cases hfires <;> exact ha

/-- While calls are made, the time played before the start and the start stay as they are until the
story is started anew. -/
theorem times_play (e : Engine) (calls : List (Int64 × Call)) :
    ((e.play calls).2.run.startedAt = e.run.startedAt ∧
        (e.play calls).2.run.playTime = e.run.playTime) ∨
      ((e.play calls).2.run.startedAt ∈ calls.map (·.1) ∧ (e.play calls).2.run.playTime = 0) := by
  induction calls generalizing e with
  | nil => exact .inl ⟨rfl, rfl⟩
  | cons first rest ih =>
    obtain ⟨now, c⟩ := first
    have hlast : (e.play ((now, c) :: rest)).2 = ((e.after now c).play rest).2 := rfl
    rw [hlast]
    rcases ih (e.after now c) with ⟨hstarted, hplayed⟩ | ⟨hstarted, hplayed⟩
    · cases hcourse : e.course now c with
      | error refusal =>
        rw [after_of_refused hcourse] at hstarted hplayed ⊢
        exact .inl ⟨hstarted, hplayed⟩
      | ok course =>
        rw [after_of_course hcourse] at hstarted hplayed ⊢
        rw [hstarted, hplayed]
        refine (times_course hcourse).imp id fun ⟨hstarted, hplayed⟩ => ⟨?_, hplayed⟩
        rw [hstarted]
        exact .head _
    · exact .inr ⟨.tail _ hstarted, hplayed⟩

end Engine

/-! ## Main result -/

/-- After a load and calls with a clock that does not go backwards there is no overflow if the text
leaves room: for one serial number more with each node entered that brings an image, and for the
time since the load unless the story was started anew. Without room for the time there is one. -/
theorem Engine.in_range_after_load {e loaded : Engine} {loadedAt now : Int64} {text : String}
    {heard : List Notice} (h : e.load loadedAt text = .ok (loaded, heard))
    {calls : List (Int64 × Call)} (hstart : 0 ≤ loadedAt)
    (hclock : (loadedAt :: calls.map (·.1) ++ [now]).Pairwise (· ≤ ·)) :
    ∃ p, Playthrough.parse text = .ok p ∧
      loaded.imageCounter = max e.imageCounter (p.scene.dropExiting.maxSerial?.getD 0) ∧
      (loaded.imageCounter.toNat + (loaded.enteredDuring calls).countP (·.bringsImage) <
          UInt64.size →
        ∃ answers last, loaded.attempts calls = .ok (answers, last) ∧
          ((last.save now).isOk ↔ last.run.Totals now)) ∧
      ∀ answers last, loaded.attempts calls = .ok (answers, last) →
        (last.run.startedAt = loadedAt ∧ last.run.playTime = p.playTime ∧
          (last.run.Totals now ↔ p.playTime.toInt + (now.toInt - loadedAt.toInt) < 2 ^ 63)) ∨
        (last.run.startedAt ∈ calls.map (·.1) ∧ last.run.playTime = 0 ∧ last.run.Totals now) := by
  obtain ⟨p, hp, rfl⟩ := of_load h
  refine ⟨p, hp, rfl, fun hroom => ?_, fun answers last hattempts => ?_⟩
  · obtain ⟨hsteady, hreserves⟩ := (reserves_resume e loadedAt p).play hroom
    refine ⟨_, _, attempts_eq_ok.2 ⟨hsteady, rfl⟩, ?_⟩
    rw [isOk_save]
    exact and_iff_left (hreserves.canSettle hroom)
  · obtain ⟨-, hplay⟩ := attempts_eq_ok.1 hattempts
    obtain rfl : ((e.resume loadedAt p).play calls).2 = last := congrArg Prod.snd hplay
    rw [List.cons_append, List.pairwise_cons, List.pairwise_append] at hclock
    obtain ⟨hafter, -, -, hbefore⟩ := hclock
    rcases times_play (e.resume loadedAt p) calls with ⟨hstarted, hplayed⟩ | ⟨hstarted, hplayed⟩
    · have hstarted' : ((e.resume loadedAt p).play calls).2.run.startedAt = loadedAt := hstarted
      have hplayed' : ((e.resume loadedAt p).play calls).2.run.playTime = p.playTime := hplayed
      refine .inl ⟨hstarted', hplayed', ?_⟩
      rw [Playthrough.totals_iff, hstarted', hplayed']
      · rwa [hstarted']
      · rw [hstarted']
        exact hafter now (List.mem_append_right _ (.head _))
    · have hlater := hafter _ (List.mem_append_left _ hstarted)
      have hnow := hbefore _ hstarted now (.head _)
      have hnonneg := Int64.le_trans hstart hlater
      refine .inr ⟨hstarted, hplayed, (Playthrough.totals_iff hnonneg hnow).2 ?_⟩
      have hlarge := now.toInt_lt
      rw [Int64.le_iff_toInt_le] at hnonneg
      rw [hplayed]
      change (0 : Int) + _ < _
      change (0 : Int) ≤ _ at hnonneg
      omega

namespace Gallery

/-- A save at the door, with a picture that has come under a serial number, after some time. -/
def atDoor (serial : UInt64) (playTime : Int64) : Playthrough where
  node := "door"
  stage := "house"
  chapter := "hall"
  scene := ⟨[{ node := "door", serial, picture := { path := "moon.png", slot := ⟨"sky", 0⟩ } }]⟩
  playTime
  status := .playing

theorem parse_atDoor (serial : UInt64) (playTime : Int64) :
    Playthrough.parse (atDoor serial playTime).text = .ok (atDoor serial playTime) :=
  Playthrough.parse_text_of_reread (fun _ hv => absurd hv List.not_mem_nil)
    fun _ hx => absurd hx List.not_mem_nil

/-- From the door past both pictures. -/
def tour : List (Int64 × Call) := [(0, .advance), (300, .poll)]

/-- The gallery is gone through after a load and saved, and there is no overflow. -/
theorem in_range_at_door :
    ∃ loaded heard answers last,
      ({ story } : Engine).load 0 (atDoor 7 1000).text = .ok (loaded, heard) ∧
      loaded.attempts tour = .ok (answers, last) ∧ (last.save 700).isOk := by
  have hload := Engine.load_of_parse (parse_atDoor 7 1000) { story } 0
  have hclock : (0 :: tour.map Prod.fst ++ [700]).Pairwise (· ≤ ·) := by decide
  obtain ⟨p, hp, -, hnumbers, htimes⟩ := Engine.in_range_after_load hload (by decide) hclock
  obtain rfl := Except.ok.inj ((parse_atDoor 7 1000).symm.trans hp)
  obtain ⟨answers, last, hattempts, hsaves⟩ := hnumbers (by decide +kernel)
  refine ⟨_, _, answers, last, hload, hattempts, hsaves.2 ?_⟩
  rcases htimes answers last hattempts with ⟨-, -, htotals⟩ | ⟨-, -, htotals⟩
  · exact htotals.2 (by decide)
  · exact htotals

/-- A save with the largest serial number and the longest time that there are. -/
def filled : Playthrough := atDoor 18446744073709551615 9223372036854775807

/-- It is loaded, but after a millisecond it cannot be saved, and at no time can the story go on to
the first picture. -/
theorem not_in_range_filled :
    ∃ loaded heard, ({ story } : Engine).load 0 filled.text = .ok (loaded, heard) ∧
      loaded.save 1 = .error .addition ∧ loaded.attempts [(0, .advance)] = .error .addition := by
  refine ⟨_, _, Engine.load_of_parse (parse_atDoor _ _) { story } 0, ?_, ?_⟩
  · decide +kernel
  · decide +kernel

end Gallery
end BranchingStory
