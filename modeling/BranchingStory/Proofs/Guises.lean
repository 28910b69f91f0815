import BranchingStory.Proofs.Loading
import Mathlib.Logic.Equiv.Basic
/-!
# Engines that play alike

An engine cannot tell from what it does which serial numbers its images have, when its timers were
scheduled or how long it has been playing. `Engine.recast` changes all this at once, and every call
then does the same as before (`Engine.course_alike`). Where only serial numbers above a base are
changed, this goes on as long as they do not run out.
-/

namespace BranchingStory

/-- How one of two engines that play alike differs from the other: its serial numbers are larger by
a shift, all of them or those above a base, its timers have larger numbers and an epoch of their
own, and the rest has to do with the time. -/
structure Guise where
  base : Option UInt64
  shift : UInt64
  number : Nat
  epoch : Nat
  observers : Nat
  startedAt : Int64 → Int64
  playTime : Int64 → Int64
  room : ∀ b ∈ base, b.toNat + shift.toNat < UInt64.size

namespace Guise

variable (g : Guise)

/-- The serial number that another one becomes. Above a base, numbers that would be too large fill
the gap, so that no two become the same. -/
def serial (n : UInt64) : UInt64 :=
  match g.base with
  | none => n + g.shift
  | some base =>
    if n ≤ base then n
    else if n.toNat + g.shift.toNat < UInt64.size then n + g.shift
    else n + g.shift + (base + 1)

/-- A counter that has not come to the numbers that would be too large. -/
def Fits (counter : UInt64) : Prop :=
  ∀ b ∈ g.base, b ≤ counter ∧ counter.toNat + g.shift.toNat < UInt64.size

/-- A counter up to which numbers stay in their order. -/
def Orders (counter : UInt64) : Prop := g.base.isSome ∧ g.Fits counter

/-- The counter does not get smaller, where that matters. -/
def Rises (counter counter' : UInt64) : Prop := g.base.isSome → counter ≤ counter'

theorem toNat_serial {base : UInt64} (hbase : g.base = some base) (n : UInt64) :
    (g.serial n).toNat =
      if n.toNat ≤ base.toNat then n.toNat
      else if n.toNat + g.shift.toNat < UInt64.size then n.toNat + g.shift.toNat
      else n.toNat + g.shift.toNat - UInt64.size + (base.toNat + 1) := by
  have hroom := g.room base hbase
  have hn := n.toNat_lt
  have hshift := g.shift.toNat_lt
  unfold serial
  rw [hbase]
  simp only [UInt64.le_iff_toNat_le]
  split
  · rfl
  · split
    · rename_i hsmall
      exact (UInt64.toNat_add ..).trans (Nat.mod_eq_of_lt hsmall)
    · simp only [UInt64.toNat_add, UInt64.size, UInt64.reduceToNat] at *
      omega

theorem serial_of_none (hbase : g.base = none) (n : UInt64) : g.serial n = n + g.shift := by
  unfold serial
  rw [hbase]

theorem fits_of_none (hbase : g.base = none) (counter : UInt64) : g.Fits counter := by
  intro b hb
  rw [hbase] at hb
  cases hb

theorem serial_injective : Function.Injective g.serial := by
  intro m n h
  cases hbase : g.base with
  | none =>
    rw [serial_of_none g hbase, serial_of_none g hbase] at h
    exact (UInt64.add_left_inj g.shift).1 h
  | some base =>
    have hroom := g.room base hbase
    have hm := m.toNat_lt
    have hn := n.toNat_lt
    rw [← UInt64.toNat_inj, toNat_serial g hbase, toNat_serial g hbase] at h
    rw [← UInt64.toNat_inj]
    simp only [UInt64.size] at *
    grind

variable {g}

/-- Up to a counter that fits, a smaller number becomes a smaller one. -/
theorem serial_lt_serial {counter m n : UInt64} (h : g.Orders counter) (hn : n ≤ counter)
    (hlt : m < n) : g.serial m < g.serial n := by
  obtain ⟨hsome, hfits⟩ := h
  obtain ⟨base, hbase⟩ := Option.isSome_iff_exists.1 hsome
  obtain ⟨hle, hroom⟩ := hfits base hbase
  rw [UInt64.lt_iff_toNat_lt, toNat_serial g hbase, toNat_serial g hbase]
  simp only [UInt64.le_iff_toNat_le, UInt64.lt_iff_toNat_lt] at *
  grind

theorem succ_add_shift (g : Guise) (counter : UInt64) :
    counter + 1 + g.shift = counter + g.shift + 1 := by
  rw [UInt64.add_assoc, UInt64.add_assoc, UInt64.add_comm 1]

/-- The number after a counter that fits becomes the one after what the counter becomes. -/
theorem serial_next {counter : UInt64} (h : g.Fits counter)
    (hroom : g.Rises (counter + g.shift) (counter + g.shift + 1)) :
    g.serial (counter + 1) = counter + g.shift + 1 ∧ g.Fits (counter + 1) := by
  cases hbase : g.base with
  | none =>
    exact ⟨by rw [serial_of_none g hbase, succ_add_shift], fits_of_none g hbase _⟩
  | some base =>
    obtain ⟨hle, hsmall⟩ := h base hbase
    have hlt := UInt64.lt_add_one_of_le (hroom (by rw [hbase]; rfl))
    have hsum : (counter + g.shift).toNat = counter.toNat + g.shift.toNat :=
      (UInt64.toNat_add ..).trans (Nat.mod_eq_of_lt hsmall)
    have hnext : counter.toNat + g.shift.toNat + 1 < UInt64.size := by
      rw [UInt64.lt_iff_toNat_lt, UInt64.toNat_add (counter + g.shift), hsum] at hlt
      simp only [UInt64.size, UInt64.reduceToNat] at *
      omega
    have hsucc : (counter + 1).toNat = counter.toNat + 1 :=
      (UInt64.toNat_add ..).trans (Nat.mod_eq_of_lt (Nat.lt_of_le_of_lt (by simp) hnext))
    rw [UInt64.le_iff_toNat_le] at hle
    refine ⟨?_, fun b hb => ?_⟩
    · rw [← UInt64.toNat_inj, toNat_serial g hbase, hsucc, if_neg (by omega), if_pos (by omega),
        UInt64.toNat_add, hsum, UInt64.toNat_one, Nat.mod_eq_of_lt hnext]
      omega
    · obtain rfl : base = b := Option.some.inj (hbase.symm.trans hb)
      exact ⟨UInt64.le_iff_toNat_le.2 (by omega), by omega⟩

end Guise

/-! ## Recasting -/

section Recast
variable (g : Guise)

/-- What a timer does once serial numbers have become other ones. -/
def Deferred.renamed (f : UInt64 → UInt64) : Deferred → Deferred
  | .removeImage serial => .removeImage (f serial)
  | action => action

/-- The image under the number that its own becomes. -/
def StageImage.recast (i : StageImage) : StageImage := { i with serial := g.serial i.serial }

def Scene.recast (s : Scene) : Scene := ⟨s.images.map (·.recast g)⟩

/-- A timer as it would be, had it been scheduled later. Whether it is of a given epoch stays as it
is. -/
def Timer.recast (epoch : Nat) (t : Timer) : Timer :=
  ⟨t.due, t.number + g.number, Equiv.swap epoch g.epoch t.epoch, t.action.renamed g.serial⟩

def Timers.recast (t : Timers) : Timers :=
  ⟨t.timers.map (·.recast g t.epoch), t.lastNumber + g.number, g.epoch⟩

/-- The engine in another guise. -/
def Engine.recast (e : Engine) : Engine :=
  { e with
    observers := g.observers
    run.scene := e.run.scene.recast g
    run.startedAt := g.startedAt e.run.startedAt
    run.playTime := g.playTime e.run.playTime
    timers := e.timers.recast g
    imageCounter := e.imageCounter + g.shift }

def Moment.recast (m : Moment) : Moment := { m with engine := m.engine.recast g }

end Recast

/-- A guise that another one may become in the course of a call. Serial numbers become the same as
before, and so do times if they stayed what they were. -/
structure Guise.Continues (g' g : Guise) : Prop where
  base : g'.base = g.base
  shift : g'.shift = g.shift
  startedAt : g.startedAt = id → g'.startedAt = id
  playTime : g.playTime = id → g'.playTime = id

theorem Guise.Continues.refl (g : Guise) : g.Continues g := ⟨rfl, rfl, id, id⟩

theorem Guise.Continues.trans {g g' g'' : Guise} (h' : g''.Continues g') (h : g'.Continues g) :
    g''.Continues g :=
  ⟨h'.base.trans h.base, h'.shift.trans h.shift, h'.startedAt ∘ h.startedAt,
    h'.playTime ∘ h.playTime⟩

/-- Whether the counter never gets smaller, where that matters. -/
def Guise.Steadies (g : Guise) (moments : List Moment) : Prop :=
  moments.IsChain fun a b => g.Rises a.engine.imageCounter b.engine.imageCounter

/-- Where all serial numbers are shifted, it does not matter whether they run out. -/
theorem Guise.steadies_of_steady {g : Guise} {course : Course}
    (h : g.base.isSome → course.Steady) : g.Steadies course.moments := by
  cases hbase : g.base with
  | none =>
    refine (List.pairwise_of_forall fun a b hsome => ?_).isChain
    rw [hbase] at hsome
    cases hsome
  | some base =>
    have hsteady : course.Steady := h (by rw [hbase]; rfl)
    exact hsteady.imp fun _ _ hle _ => hle

/-! ## Scenes -/

namespace Scene

variable (g : Guise) (s : Scene)

/-- A scene of some images, seen in another guise. -/
theorem keep_recast {p q : StageImage → Bool} (h : ∀ i, p (i.recast g) = q i) :
    (s.recast g).keep p = (s.keep q).recast g := by
  unfold keep recast
  rw [List.filter_map, funext (f := p ∘ _) h]

theorem resident?_recast (slot : Slot) :
    (s.recast g).resident? slot = (s.resident? slot).map (·.recast g) := by
  unfold resident? recast
  rw [List.find?_map]
  rfl

theorem remove_recast (serial : UInt64) :
    (s.recast g).remove (g.serial serial) = (s.remove serial).recast g := by
  refine keep_recast g s fun i => ?_
  have hserial : (i.recast g).serial = g.serial i.serial := rfl
  simp [hserial, g.serial_injective.eq_iff]

theorem place_recast (i : StageImage) :
    (s.recast g).place (i.recast g) = (s.place i).recast g := by
  have hkept := keep_recast g s (p := fun j => j.exiting || j.slot ≠ (i.recast g).slot)
    (q := fun j => j.exiting || j.slot ≠ i.slot) fun j => rfl
  unfold place
  rw [hkept]
  simp [recast]

theorem beginExit_recast (serial : UInt64) (effect : ExitEffect) (duration : Option UInt64) :
    (s.recast g).beginExit (g.serial serial) effect duration =
      (s.beginExit serial effect duration).recast g := by
  have hreplace : ∀ images : List StageImage,
      replaceFirst (g.serial serial) (·.leaving effect duration) (images.map (·.recast g)) =
        (replaceFirst serial (·.leaving effect duration) images).map (·.recast g) := by
    intro images
    induction images with
    | nil => rfl
    | cons i rest ih =>
      have hserial : (i.recast g).serial = g.serial serial ↔ i.serial = serial :=
        g.serial_injective.eq_iff
      rw [List.map_cons, replaceFirst, replaceFirst]
      by_cases h : i.serial = serial
      · rw [if_pos h, if_pos (hserial.2 h)]
        rfl
      · rw [if_neg h, if_neg (mt hserial.1 h), ih]
        rfl
  exact congrArg Scene.mk (hreplace s.images)

end Scene

/-! ## Timers -/

namespace Timers

variable (g : Guise) (t : Timers)

theorem epoch_recast (timer : Timer) :
    (timer.recast g t.epoch).epoch = g.epoch ↔ timer.epoch = t.epoch := by
  have hswap : Equiv.swap t.epoch g.epoch t.epoch = g.epoch := Equiv.swap_apply_left ..
  exact ⟨fun h => (Equiv.swap t.epoch g.epoch).injective (h.trans hswap.symm), fun h => h ▸ hswap⟩

theorem schedule_recast (due : Int64) (action : Deferred) :
    (t.recast g).schedule due (action.renamed g.serial) = (t.schedule due action).recast g := by
  have hnumber : t.lastNumber + g.number + 1 = t.lastNumber + 1 + g.number := Nat.add_right_comm ..
  have hswap : Equiv.swap t.epoch g.epoch t.epoch = g.epoch := Equiv.swap_apply_left ..
  simp only [schedule, recast, List.map_cons, Timer.recast, hnumber, hswap]

theorem cancel_recast {p : Deferred → Bool}
    (hp : ∀ action, p (action.renamed g.serial) = p action) :
    (t.recast g).cancel p = (t.cancel p).recast g := by
  unfold cancel recast
  rw [List.filter_map]
  congr 2
  refine List.filter_congr fun timer _ => ?_
  have hepoch := epoch_recast g t timer
  have haction : p (timer.recast g t.epoch).action = p timer.action := hp timer.action
  simp only [Function.comp_apply, haction, ne_eq, hepoch]

theorem live_recast : (t.recast g).live = t.live.map (·.recast g t.epoch) := by
  unfold live recast
  rw [List.filter_map]
  refine congrArg (List.map _) (List.filter_congr fun timer _ => ?_)
  exact decide_eq_decide.2 (epoch_recast g t timer)

theorem transitionPending_recast : (t.recast g).transitionPending = t.transitionPending := by
  unfold transitionPending
  rw [live_recast, List.any_map]
  refine congrArg (List.any _) (funext fun timer => ?_)
  obtain ⟨due, number, epoch, action⟩ := timer
  cases action <;> rfl

theorem recast_injective (epoch : Nat) : Function.Injective (Timer.recast g epoch) := by
  rintro ⟨due, number, epoch, action⟩ ⟨due', number', epoch', action'⟩ h
  simp only [Timer.recast, Timer.mk.injEq, Nat.add_right_cancel_iff,
    (Equiv.swap _ _).injective.eq_iff] at h
  obtain ⟨rfl, rfl, rfl, haction⟩ := h
  have hsame : action = action' := by
    cases action <;> cases action' <;>
      simp_all [Deferred.renamed, g.serial_injective.eq_iff]
  rw [hsame]

/-- Timers fire in the same order as before. -/
theorem first?_recast (epoch : Nat) (l : List Timer) :
    first? (l.map (·.recast g epoch)) = (first? l).map (·.recast g epoch) := by
  have hnotAfter (a b : Timer) : (a.recast g epoch).notAfter (b.recast g epoch) = a.notAfter b := by
    simp [Timer.notAfter, Timer.recast]
  induction l with
  | nil => rfl
  | cons a rest ih =>
    rw [List.map_cons, first?, ih, first?]
    cases first? rest with
    | none => rfl
    | some b =>
      simp only [Option.map_some, hnotAfter]
      split <;> rfl

theorem popDue_recast (now : Int64) :
    (t.recast g).popDue now = (t.popDue now).map fun popped =>
      (popped.1.renamed g.serial, popped.2.recast g) := by
  have hdue : (t.recast g).due now = (t.due now).map (·.recast g t.epoch) := by
    unfold due recast
    rw [List.filter_map]
    refine congrArg (List.map _) (List.filter_congr fun timer _ => ?_)
    exact decide_eq_decide.2 (and_congr_left' (epoch_recast g t timer))
  unfold popDue
  rw [hdue, first?_recast, Option.map_map, Option.map_map]
  refine congrArg (Option.map · _) (funext fun timer => ?_)
  have herase : (t.timers.map (·.recast g t.epoch)).erase (timer.recast g t.epoch) =
      (t.timers.erase timer).map (·.recast g t.epoch) :=
    (List.map_erase (recast_injective g t.epoch) t.timers).symm
  simp only [Function.comp_apply, recast, herase]
  rfl

end Timers

/-! ## Entering nodes -/

namespace Engine

variable {g : Guise} {e : Engine} {now : Int64}

theorem schedule_recast (due : Int64) (action : Deferred) :
    (e.recast g).schedule due (action.renamed g.serial) = (e.schedule due action).recast g := by
  have htimers := Timers.schedule_recast g e.timers due action
  exact congrArg (fun timers => { e.recast g with timers }) htimers

/-- An image is shown under the number that follows in either guise, unless the numbers run out. -/
theorem showImage_recast (hfits : g.Fits e.imageCounter) {node : String} {d : ImageDirective}
    (hroom : g.Rises (e.recast g).imageCounter ((e.recast g).showImage node d).imageCounter) :
    (e.recast g).showImage node d = (e.showImage node d).recast g := by
  have hserial := (Guise.serial_next hfits hroom).1
  have himage : StageImage.ofDirective node (e.imageCounter + g.shift + 1) d =
      (StageImage.ofDirective node (e.imageCounter + 1) d).recast g := by
    unfold StageImage.ofDirective StageImage.recast
    rw [hserial]
  have hscene := Scene.place_recast g e.run.scene (.ofDirective node (e.imageCounter + 1) d)
  have hshown : (e.recast g).showImage node d = { e.recast g with
      imageCounter := e.imageCounter + g.shift + 1
      run.scene := (e.run.scene.recast g).place
        (.ofDirective node (e.imageCounter + g.shift + 1) d) } := rfl
  rw [hshown, himage, hscene, ← g.succ_add_shift]
  rfl

theorem exchange_recast (hfits : g.Fits e.imageCounter) {node : String} {d : ImageDirective}
    {serial : UInt64} {effect : ExitEffect}
    (hroom : g.Rises (e.recast g).imageCounter
      ((e.recast g).exchange now node d (g.serial serial) effect).imageCounter) :
    (e.recast g).exchange now node d (g.serial serial) effect =
      (e.exchange now node d serial effect).recast g := by
  have hleaving : { e.recast g with run.scene :=
        (e.recast g).run.scene.beginExit (g.serial serial) effect d.exitDuration } =
      recast g { e with run.scene := e.run.scene.beginExit serial effect d.exitDuration } :=
    congrArg (fun scene => { e.recast g with run.scene := scene })
      (Scene.beginExit_recast g e.run.scene serial effect d.exitDuration)
  have hremoval : Deferred.removeImage (g.serial serial) =
    (Deferred.removeImage serial).renamed g.serial := rfl
  revert hroom
  unfold exchange
  dsimp only
  rw [hleaving, hremoval, schedule_recast]
  generalize d.timing = timing
  intro hroom
  cases timing with
  | sequential => exact schedule_recast _ (.showImage node d)
  | crossfade =>
    refine showImage_recast ?_ hroom
    exact hfits

theorem bringImage_recast (hfits : g.Fits e.imageCounter) {node : String} {d : ImageDirective}
    (hroom : g.Rises (e.recast g).imageCounter ((e.recast g).bringImage now node d).imageCounter) :
    (e.recast g).bringImage now node d = (e.bringImage now node d).recast g := by
  have hresident : (e.recast g).run.scene.resident? d.picture.slot =
      (e.run.scene.resident? d.picture.slot).map (·.recast g) := Scene.resident?_recast ..
  revert hroom
  unfold bringImage
  rw [hresident]
  cases e.run.scene.resident? d.picture.slot with
  | none => exact showImage_recast hfits
  | some resident =>
    dsimp only [Option.map_some]
    cases d.activeExit? with
    | some effect => exact exchange_recast hfits
    | none =>
      have hremoved : { e.recast g with run.scene :=
            (e.recast g).run.scene.remove (resident.recast g).serial } =
          recast g { e with run.scene := e.run.scene.remove resident.serial } :=
        congrArg (fun scene => { e.recast g with run.scene := scene })
          (Scene.remove_recast g e.run.scene resident.serial)
      dsimp only
      rw [hremoved]
      intro hroom
      refine showImage_recast ?_ hroom
      exact hfits

theorem direct_recast (hfits : g.Fits e.imageCounter) {node : String} {d : ImageDirective}
    (hroom : g.Rises (e.recast g).imageCounter ((e.recast g).direct now node d).imageCounter) :
    (e.recast g).direct now node d = (e.direct now node d).recast g := by
  have hcleared : (e.recast g).cleared d = (e.cleared d).recast g := by
    have hcancel := Timers.cancel_recast g e.timers (p := (·.fills d.picture.slot)) fun action => by
      cases action <;> rfl
    exact congrArg (fun timers => { e.recast g with timers }) hcancel
  have hdirect (e : Engine) : e.direct now node d = if d.isRemoval then
      { e.cleared d with run.scene := (e.cleared d).run.scene.clearSlot d.picture.slot }
    else (e.cleared d).bringImage now node d := rfl
  revert hroom
  rw [hdirect, hdirect e, hcleared]
  split
  · have hscene := Scene.keep_recast g e.run.scene (p := (·.slot ≠ d.picture.slot))
      (q := (·.slot ≠ d.picture.slot)) fun i => rfl
    intro _
    exact congrArg (fun scene => { (e.cleared d).recast g with run.scene := scene }) hscene
  · intro hroom
    refine bringImage_recast ?_ hroom
    exact hfits

theorem enterImage_recast (hfits : g.Fits e.imageCounter) {n : Node} {d : ImageDirective}
    (hroom : g.Rises (e.recast g).imageCounter ((e.recast g).enterImage now n d).1.imageCounter) :
    (e.recast g).enterImage now n d =
      ((e.enterImage now n d).1.recast g, (e.enterImage now n d).2) := by
  have hcounter (e : Engine) :
      (e.enterImage now n d).1.imageCounter = (e.direct now n.id d).imageCounter := by
    unfold enterImage
    cases n.next? with
    | none => rfl
    | some next =>
      dsimp only
      split <;> rfl
  rw [hcounter] at hroom
  unfold enterImage
  rw [direct_recast hfits hroom]
  cases n.next? with
  | none => rfl
  | some next =>
    dsimp only
    split
    · have hscheduled := schedule_recast (g := g)
        (e := (e.direct now n.id d).record (imageBeat n d now))
        (dueAfter now (d.picture.duration.getD 0)) (.moveOn next)
      exact congrArg (·, none) hscheduled
    · rfl

/-- Entering a node does the same in either guise, unless the serial numbers run out. -/
theorem enter_recast (hfits : g.Fits e.imageCounter) {n : Node}
    (hroom : g.Rises (e.recast g).imageCounter ((e.recast g).enter now n).1.imageCounter) :
    (e.recast g).enter now n = ((e.enter now n).1.recast g, (e.enter now n).2) := by
  have hplain (e : Engine) (hfits : g.Fits e.imageCounter) (n : Node) (hnone : n.onEnter = none) :
      g.Rises (e.recast g).imageCounter ((e.recast g).enter now n).1.imageCounter →
        (e.recast g).enter now n = ((e.enter now n).1.recast g, (e.enter now n).2) := by
    obtain ⟨id, next, speaker, text, onEnter, kind⟩ := n
    obtain rfl : onEnter = none := hnone
    cases kind with
    | start =>
      intro _
      unfold enter Node.next?
      dsimp only
      cases given next <;> rfl
    | image d =>
      cases d with
      | none => exact fun _ => rfl
      | some d => exact enterImage_recast hfits
    | _ => exact fun _ => rfl
  obtain ⟨id, next, speaker, text, onEnter, kind⟩ := n
  cases onEnter with
  | none => exact hplain e hfits _ rfl hroom
  | some effects =>
    exact hplain { e with run.store := e.run.store.applyEffects effects } hfits
      ⟨id, next, speaker, text, none, kind⟩ rfl hroom

/-- Entering a node shows one image at most. -/
theorem imageCounter_enter (e : Engine) (now : Int64) (n : Node) :
    (e.enter now n).1.imageCounter = e.imageCounter ∨
      (e.enter now n).1.imageCounter = e.imageCounter + 1 := by
  have hdirect (d : ImageDirective) : (e.direct now n.id d).imageCounter = e.imageCounter ∨
      (e.direct now n.id d).imageCounter = e.imageCounter + 1 := by
    have hd := directs e now n.id d
    generalize e.direct now n.id d = after at hd
    cases hd with
    | empty => exact .inl rfl
    | bring => exact .inr rfl
    | replace => exact .inr rfl
    | exchange =>
      unfold exchange
      cases d.timing with
      | sequential => exact .inl rfl
      | crossfade => exact .inr rfl
  have hentered := enters e now n
  generalize e.enter now n = after at hentered
  cases hentered with
  | plain => exact .inl rfl
  | image d => exact hdirect d
  | wait d => exact hdirect d

/-- What entering a node comes to in another guise, known from its counter not being smaller. -/
theorem enter_alike (hfits : g.Fits e.imageCounter) {n : Node} {after : Engine}
    {onward : Option String}
    (hafter : (e.recast g).enter now n = (after, onward))
    (hroom : g.Rises (e.recast g).imageCounter after.imageCounter) :
    ∃ next, e.enter now n = (next, onward) ∧ after = next.recast g ∧ g.Fits next.imageCounter := by
  have hroom' : g.Rises (e.recast g).imageCounter ((e.recast g).enter now n).1.imageCounter := by
    rw [hafter]
    exact hroom
  have henter := (enter_recast hfits hroom').symm.trans hafter
  obtain ⟨rfl, rfl⟩ := Prod.mk.inj henter
  refine ⟨(e.enter now n).1, rfl, rfl, ?_⟩
  change g.Rises (e.imageCounter + g.shift) ((e.enter now n).1.imageCounter + g.shift) at hroom
  rcases e.imageCounter_enter now n with hsame | hnext
  · rwa [hsame]
  · rw [hnext] at hroom ⊢
    refine (Guise.serial_next hfits ?_).2
    rwa [g.succ_add_shift] at hroom

/-! ## Courses -/

/-- The moments of one engine are those of another one in another guise, and its serial numbers do
not run out. -/
def Alike (g : Guise) (moments' moments : List Moment) : Prop :=
  moments' = moments.map (·.recast g) ∧ ∀ m ∈ moments, g.Fits m.engine.imageCounter

theorem Alike.nil : Alike g [] [] := ⟨rfl, fun _ hm => absurd hm List.not_mem_nil⟩

theorem Alike.cons {m : Moment} {moments' moments : List Moment}
    (hm : g.Fits m.engine.imageCounter) (h : Alike g moments' moments) :
    Alike g (m.recast g :: moments') (m :: moments) := by
  refine ⟨congrArg _ h.1, fun m' hm' => ?_⟩
  rcases List.mem_cons.1 hm' with rfl | hm'
  · exact hm
  · exact h.2 m' hm'

theorem Alike.append {first' first rest' rest : List Moment} (h : Alike g first' first)
    (h' : Alike g rest' rest) : Alike g (first' ++ rest') (first ++ rest) := by
  refine ⟨by rw [h.1, h'.1, List.map_append], fun m hm => ?_⟩
  rcases List.mem_append.1 hm with hm | hm
  · exact h.2 m hm
  · exact h'.2 m hm

theorem Alike.through {moments' moments : List Moment} (h : Alike g moments' moments) (e : Engine) :
    (e.recast g).through moments' = (e.through moments).recast g := by
  obtain ⟨rfl, -⟩ := h
  induction moments generalizing e with
  | nil => rfl
  | cons m rest ih => exact ih m.engine

theorem walked_alike {chapter : Chapter} (steps : Nat) {id : String} {a : Moment}
    (ha : a.engine.imageCounter = (e.recast g).imageCounter) (hfits : g.Fits e.imageCounter)
    (hsteady : g.Steadies (a :: walked now chapter steps (e.recast g) id)) :
    Alike g (walked now chapter steps (e.recast g) id) (walked now chapter steps e id) := by
  have hat : (e.recast g).atNode id = (e.atNode id).recast g := rfl
  -- where the counter has not got smaller, the node was entered alike
  have hentered {e : Engine} {id : String} {n : Node} {a : Moment} {after : Engine}
      {onward : Option String} {rest : List Moment} (hfits : g.Fits e.imageCounter)
      (ha : a.engine.imageCounter = (e.recast g).imageCounter)
      (hafter : ((e.atNode id).recast g).enter now n = (after, onward))
      (hsteady : g.Steadies (a :: ⟨after, some n, onward⟩ :: rest)) :
      ∃ next, (e.atNode id).enter now n = (next, onward) ∧ after = next.recast g ∧
        g.Fits next.imageCounter :=
    enter_alike (e := e.atNode id) hfits hafter (ha ▸ (List.isChain_cons_cons.1 hsteady).1)
  induction steps generalizing e id a with
  | zero =>
    unfold walked at hsteady ⊢
    cases hnode : chapter.node? id with
    | none => exact .nil
    | some n =>
      simp only [hnode, hat] at hsteady ⊢
      rcases hafter : ((e.atNode id).recast g).enter now n with ⟨after, _ | onward⟩
      all_goals
        rw [hafter] at hsteady
        obtain ⟨next, hnext, rfl, hnextfits⟩ := hentered hfits ha hafter hsteady
        rw [hnext]
        exact .cons (m := ⟨next, some n, _⟩) hnextfits .nil
  | succ steps ih =>
    unfold walked at hsteady ⊢
    cases hnode : chapter.node? id with
    | none => exact .nil
    | some n =>
      simp only [hnode, hat] at hsteady ⊢
      rcases hafter : ((e.atNode id).recast g).enter now n with ⟨after, _ | onward⟩
      all_goals
        rw [hafter] at hsteady
        obtain ⟨next, hnext, rfl, hnextfits⟩ := hentered hfits ha hafter hsteady
        rw [hnext]
      · exact .cons (m := ⟨next, some n, _⟩) hnextfits .nil
      · have hrest := (List.isChain_cons_cons.1 hsteady).2
        exact .cons (m := ⟨next, some n, _⟩) hnextfits (ih rfl hnextfits hrest rfl)

theorem wentTo_alike {id : String} {a : Moment}
    (ha : a.engine.imageCounter = (e.recast g).imageCounter) (hfits : g.Fits e.imageCounter)
    (hsteady : g.Steadies (a :: (e.recast g).wentTo now id)) :
    Alike g ((e.recast g).wentTo now id) (e.wentTo now id) := by
  have hchapter : (e.recast g).currentChapter? = e.currentChapter? := rfl
  revert hsteady
  unfold wentTo
  rw [hchapter]
  cases e.currentChapter? with
  | none => exact fun _ => .nil
  | some chapter => exact walked_alike _ ha hfits

theorem fired_alike {action : Deferred} {a : Moment}
    (ha : a.engine.imageCounter = (e.recast g).imageCounter) (hfits : g.Fits e.imageCounter)
    (hsteady : g.Steadies (a :: (e.recast g).fired now (action.renamed g.serial))) :
    Alike g ((e.recast g).fired now (action.renamed g.serial)) (e.fired now action) := by
  cases action with
  | removeImage serial =>
    have hscene := Scene.remove_recast g e.run.scene serial
    have hremoved : (e.recast g).fired now (.removeImage (g.serial serial)) =
        (e.fired now (.removeImage serial)).map (·.recast g) :=
      congrArg (fun scene => [Moment.mk { e.recast g with run.scene := scene } none none]) hscene
    exact ⟨hremoved, fun m hm => (List.mem_singleton.1 hm) ▸ hfits⟩
  | showImage node d =>
    have hroom : g.Rises (e.recast g).imageCounter ((e.recast g).showImage node d).imageCounter :=
      ha ▸ (List.isChain_cons_cons.1 hsteady).1
    have hmoments := Alike.cons (m := ⟨e.showImage node d, none, none⟩)
      (Guise.serial_next hfits hroom).2 .nil
    unfold Moment.recast at hmoments
    rw [← showImage_recast hfits hroom] at hmoments
    exact hmoments
  | moveOn next =>
    have hwent := (List.isChain_cons_cons.1 hsteady).2
    exact .cons (m := ⟨e, none, some next⟩) hfits (wentTo_alike rfl hfits hwent)

/-- What follows some moments comes of the last of them. -/
theorem isChain_counters_append {R : UInt64 → UInt64 → Prop} {a : Moment} {x : Engine}
    {first rest : List Moment} (ha : a.engine.imageCounter = x.imageCounter)
    (h : (a :: first ++ rest).IsChain fun a b => R a.engine.imageCounter b.engine.imageCounter) :
    (a :: first).IsChain (fun a b => R a.engine.imageCounter b.engine.imageCounter) ∧
      (⟨x.through first, none, none⟩ :: rest).IsChain fun a b =>
        R a.engine.imageCounter b.engine.imageCounter := by
  refine ⟨List.IsChain.left_of_append h, ?_⟩
  induction first generalizing a x with
  | nil =>
    cases rest with
    | nil => exact .singleton _
    | cons b rest =>
      obtain ⟨hab, hrest⟩ := List.isChain_cons_cons.1 h
      exact .cons_cons (ha ▸ hab) hrest
  | cons m first ih => exact ih rfl (List.isChain_cons_cons.1 h).2

theorem Alike.fits_through {moments' moments : List Moment} (h : Alike g moments' moments)
    (hfits : g.Fits e.imageCounter) : g.Fits (e.through moments).imageCounter := by
  obtain ⟨-, hmoments⟩ := h
  induction moments generalizing e with
  | nil => exact hfits
  | cons m rest ih =>
    exact ih (hmoments m (.head _)) fun m' hm' => hmoments m' (.tail _ hm')

theorem polled_of_none (hdue : e.timers.popDue now = none) (most : Nat) :
    polled now most e = [] := by
  cases most with
  | zero => rfl
  | succ most => rw [polled, hdue]

theorem polled_of_some {action : Deferred} {timers : Timers}
    (hdue : e.timers.popDue now = some (action, timers)) (most : Nat) :
    polled now (most + 1) e = { e with timers }.fired now action ++
      polled now most ({ e with timers }.through ({ e with timers }.fired now action)) := by
  rw [polled, hdue]

theorem polled_alike (most : Nat) {a : Moment}
    (ha : a.engine.imageCounter = (e.recast g).imageCounter) (hfits : g.Fits e.imageCounter)
    (hsteady : g.Steadies (a :: polled now most (e.recast g))) :
    Alike g (polled now most (e.recast g)) (polled now most e) := by
  induction most generalizing e a with
  | zero => exact .nil
  | succ most ih =>
    have hpop : (e.recast g).timers.popDue now = (e.timers.popDue now).map fun popped =>
        (popped.1.renamed g.serial, popped.2.recast g) := Timers.popDue_recast ..
    cases hdue : e.timers.popDue now with
    | none =>
      rw [hdue] at hpop
      rw [polled_of_none hpop, polled_of_none hdue]
      exact .nil
    | some popped =>
      obtain ⟨action, timers⟩ := popped
      rw [hdue] at hpop
      obtain ⟨x, hx, hcounter⟩ :
          ∃ x : Engine, x = { e with timers } ∧ x.imageCounter = e.imageCounter := ⟨_, rfl, rfl⟩
      have hpolled : polled now (most + 1) (e.recast g) =
          (x.recast g).fired now (action.renamed g.serial) ++ polled now most
            ((x.recast g).through ((x.recast g).fired now (action.renamed g.serial))) := by
        rw [hx]
        exact polled_of_some hpop most
      have ha' : a.engine.imageCounter = (x.recast g).imageCounter :=
        ha.trans (congrArg (· + g.shift) hcounter.symm)
      rw [hpolled] at hsteady ⊢
      rw [polled_of_some hdue, ← hx]
      rw [← hcounter] at hfits
      obtain ⟨hfired, hrest⟩ := isChain_counters_append (R := g.Rises) ha' hsteady
      have hfirst := fired_alike ha' hfits hfired
      rw [hfirst.through x] at hrest ⊢
      exact hfirst.append (ih rfl (hfirst.fits_through hfits) hrest)

/-! ## Calls -/

/-- Two courses that are alike, or the same refusal. In their course the guise may become another
one, but not as to serial numbers. -/
def CourseAlike (g : Guise) : Except Refusal Course → Except Refusal Course → Prop
  | .error refusal', .error refusal => refusal' = refusal
  | .ok course', .ok course => g.Steadies course'.moments →
    ∃ g' : Guise, g'.Continues g ∧ Alike g' course'.moments course.moments
  | _, _ => False

theorem CourseAlike.cases {x' x : Except Refusal Course} (h : CourseAlike g x' x) :
    (∃ refusal, x' = .error refusal ∧ x = .error refusal) ∨
      ∃ course' course, x' = .ok course' ∧ x = .ok course ∧ (g.Steadies course'.moments →
        ∃ g' : Guise, g'.Continues g ∧ Alike g' course'.moments course.moments) := by
  cases x' with
  | error refusal' =>
    cases x with
    | error refusal => exact .inl ⟨refusal, congrArg _ h, rfl⟩
    | ok course => exact absurd h not_false
  | ok course' =>
    cases x with
    | error refusal => exact absurd h not_false
    | ok course => exact .inr ⟨course', course, rfl, rfl, h⟩

theorem going_alike (hfits : g.Fits e.imageCounter) {id : Option String}
    (hsteady : g.Steadies ((e.recast g).going now id).moments) :
    Alike g ((e.recast g).going now id).moments (e.going now id).moments := by
  cases id with
  | none => exact .cons (m := ⟨e, none, none⟩) hfits .nil
  | some id => exact .cons (m := ⟨e, none, some id⟩) hfits (wentTo_alike rfl hfits hsteady)

theorem beginning_alike (hfits : g.Fits e.imageCounter) {chapter : Chapter}
    (hsteady : g.Steadies ((e.recast g).beginning now chapter).moments) :
    Alike g ((e.recast g).beginning now chapter).moments (e.beginning now chapter).moments := by
  revert hsteady
  unfold beginning
  cases chapter.entry? with
  | none => exact fun _ => .cons (m := ⟨e, none, none⟩) hfits .nil
  | some entry =>
    intro hsteady
    exact .cons (m := ⟨e.atNode entry, none, some entry⟩) hfits
      (walked_alike _ (e := e.atNode entry) rfl hfits hsteady)

theorem starting_alike (hfits : g.Fits e.imageCounter) {stage chapter : Option String} :
    CourseAlike g ((e.recast g).starting now stage chapter) (e.starting now stage chapter) := by
  have hresolve : (e.recast g).story.resolve stage chapter = e.story.resolve stage chapter := rfl
  unfold starting
  rw [hresolve]
  cases e.story.resolve stage chapter with
  | error what => rfl
  | ok found =>
    obtain ⟨st, ch⟩ := found
    intro hsteady
    let g' : Guise := { g with epoch := g.epoch + 1, startedAt := id, playTime := id }
    exact ⟨g', ⟨rfl, rfl, fun _ => rfl, fun _ => rfl⟩,
      beginning_alike (e := e.anew now st ch) (g := g') hfits hsteady⟩

theorem movingOn_alike (hfits : g.Fits e.imageCounter) {stage chapter : String} :
    CourseAlike g ((e.recast g).movingOn now stage chapter) (e.movingOn now stage chapter) := by
  have hresolve : (e.recast g).story.resolve (some stage) (some chapter) =
      e.story.resolve (some stage) (some chapter) := rfl
  have hstatus : (e.recast g).run.status = e.run.status := rfl
  unfold movingOn
  rw [hresolve, hstatus]
  split
  · rfl
  · cases e.story.resolve (some stage) (some chapter) with
    | error what => rfl
    | ok found =>
      obtain ⟨st, ch⟩ := found
      let g' : Guise := { g with epoch := g.epoch + 1 }
      have hmoved : (e.recast g).movedInto st ch = (e.movedInto st ch).recast g' := by
        have hscene : (if (e.recast g).ending?.all (·.clearVisuals) then ({} : Scene)
            else (e.run.scene.recast g).dropExiting) =
            Scene.recast g'
              (if e.ending?.all (·.clearVisuals) then {} else e.run.scene.dropExiting) := by
          have hending : (e.recast g).ending? = e.ending? := rfl
          rw [hending]
          split
          · rfl
          · exact Scene.keep_recast g e.run.scene fun i => rfl
        unfold movedInto recast
        dsimp only
        rw [← hscene]
        rfl
      dsimp only
      rw [hmoved]
      intro hsteady
      exact ⟨g', ⟨rfl, rfl, id, id⟩,
        beginning_alike (e := e.movedInto st ch) (g := g') hfits hsteady⟩

theorem hindrance?_recast : (e.recast g).hindrance? = e.hindrance? := by
  have hpending : (e.recast g).timers.transitionPending = e.timers.transitionPending :=
    Timers.transitionPending_recast ..
  have hstatus : (e.recast g).run.status = e.run.status := rfl
  unfold hindrance?
  rw [hstatus, hpending]

theorem advancing_alike (hfits : g.Fits e.imageCounter) :
    CourseAlike g ((e.recast g).advancing now) (e.advancing now) := by
  have hnode : (e.recast g).currentNode? = e.currentNode? := rfl
  unfold advancing
  rw [hindrance?_recast, hnode]
  cases e.hindrance? with
  | some refusal => rfl
  | none =>
    cases e.currentNode? with
    | none => exact fun _ => ⟨g, .refl g, .cons (m := ⟨e, none, none⟩) hfits .nil⟩
    | some n =>
      dsimp only
      cases n.type with
      | choice => rfl
      | chapterEnd =>
        exact fun _ => ⟨g, .refl g, .cons (m := ⟨(e.finishChapter n).1, none, none⟩) hfits .nil⟩
      | _ => exact fun hsteady => ⟨g, .refl g, going_alike hfits hsteady⟩

theorem choosing_alike (hfits : g.Fits e.imageCounter) {index : UInt64} :
    CourseAlike g ((e.recast g).choosing now index) (e.choosing now index) := by
  have hnode : (e.recast g).currentNode? = e.currentNode? := rfl
  have hunlocked (c : Choice) : (e.recast g).unlocked c = e.unlocked c := rfl
  unfold choosing
  rw [hindrance?_recast, hnode]
  cases e.hindrance? with
  | some refusal => rfl
  | none =>
    cases e.currentNode? with
    | none => rfl
    | some n =>
      dsimp only
      cases n.kind with
      | choice choices =>
        dsimp only
        cases choices[index.toNat]? with
        | none => rfl
        | some c =>
          dsimp only
          rw [hunlocked]
          split
          · exact fun hsteady => ⟨g, .refl g,
              going_alike (e := e.recordChoice now n index c) hfits hsteady⟩
          · rfl
      | _ => rfl

/-- A call takes the same course in either guise, unless the serial numbers run out. -/
theorem course_alike (hfits : g.Fits e.imageCounter) (c : Call) :
    CourseAlike g ((e.recast g).course now c) (e.course now c) := by
  cases c with
  | start stage chapter => exact starting_alike hfits
  | restart =>
    have hstatus : (e.recast g).run.status = e.run.status := rfl
    change CourseAlike g ((e.recast g).restarting now) (e.restarting now)
    unfold restarting
    rw [hstatus]
    split
    · rfl
    · exact starting_alike hfits
  | startChapter stage chapter => exact movingOn_alike hfits
  | advance => exact advancing_alike hfits
  | choose index => exact choosing_alike hfits
  | poll =>
    have hlimit : (e.recast g).pollLimit = e.pollLimit := by
      unfold pollLimit recast Timers.recast
      rw [List.length_map]
    change CourseAlike g (.ok ⟨⟨e.recast g, none, none⟩, polled now (e.recast g).pollLimit _⟩) _
    rw [hlimit]
    exact fun hsteady => ⟨g, .refl g,
      .cons (m := ⟨e, none, none⟩) hfits (polled_alike e.pollLimit rfl hfits hsteady)⟩

end Engine

end BranchingStory
