import BranchingStory.Play.Saving
import Mathlib.Tactic.Common
/-!
# What entering a node can do

Entering a node writes into the store and the backlog. Only the directive of an image node does
more: it cancels what was still to come into its slot, and then does one of five things to the
images and the timers. Whatever is to be shown of every engine is shown case by case here and
nowhere else.
-/

namespace BranchingStory

/-- The directive of an image node. -/
def Node.directive? (n : Node) : Option ImageDirective :=
  match n.kind with
  | .image d => d
  | _ => none

theorem Node.directive?_eq_some {n : Node} {d : ImageDirective} :
    n.directive? = some d ↔ n.kind = .image (some d) := by
  unfold directive?
  cases n.kind <;> simp

namespace Engine

/-- The engine with another store and another backlog. -/
def told (e : Engine) (store : Store) (backlog : Backlog) : Engine :=
  { e with run.store := store, run.backlog := backlog }

@[simp] theorem told_scene (e : Engine) (store : Store) (backlog : Backlog) :
    (e.told store backlog).run.scene = e.run.scene := rfl

/-- What a directive does once nothing is to come into its slot any more: it empties the slot,
brings its image, or exchanges the image in the slot for its own. -/
inductive Directs (e : Engine) (now : Int64) (node : String) (d : ImageDirective) : Engine → Prop
  | empty (h : d.isRemoval) :
    Directs e now node d { e with run.scene := e.run.scene.clearSlot d.picture.slot }
  | bring (h : d.isRemoval = false) (hfree : e.run.scene.resident? d.picture.slot = none) :
    Directs e now node d (e.showImage node d)
  | replace (h : d.isRemoval = false) (resident : StageImage)
      (hresident : e.run.scene.resident? d.picture.slot = some resident) :
    Directs e now node d
      ({ e with run.scene := e.run.scene.remove resident.serial }.showImage node d)
  | exchange (h : d.isRemoval = false) (resident : StageImage)
      (hresident : e.run.scene.resident? d.picture.slot = some resident) (effect : ExitEffect) :
    Directs e now node d (e.exchange now node d resident.serial effect)

/-- The engine with nothing to come into the slot of a directive. -/
def cleared (e : Engine) (d : ImageDirective) : Engine :=
  { e with timers := e.timers.cancel (·.fills d.picture.slot) }

theorem directs (e : Engine) (now : Int64) (node : String) (d : ImageDirective) :
    Directs (e.cleared d) now node d (e.direct now node d) := by
  unfold direct
  dsimp only
  split
  · rename_i hremoval
    exact .empty hremoval
  · rename_i hremoval
    have hpicture : d.isRemoval = false := Bool.eq_false_iff.2 hremoval
    change Directs (e.cleared d) now node d ((e.cleared d).bringImage now node d)
    unfold bringImage
    split
    · rename_i hfree
      exact .bring hpicture hfree
    · rename_i resident hresident
      split
      · exact .exchange hpicture resident hresident _
      · exact .replace hpicture resident hresident

/-- What entering a node does: it writes into the store and the backlog, follows the directive of
the node if it has one, and may have the story wait for the image. -/
inductive EntersAs (e : Engine) (now : Int64) (n : Node) : Engine × Option String → Prop
  | plain (h : n.directive? = none) (store : Store) (backlog : Backlog) (onward : Option String) :
    EntersAs e now n (e.told store backlog, onward)
  | image (d : ImageDirective) (h : n.directive? = some d) (store : Store) (backlog : Backlog)
      (onward : Option String) :
    EntersAs e now n ((e.direct now n.id d).told store backlog, onward)
  | wait (d : ImageDirective) (h : n.directive? = some d) (next : String)
      (hnext : n.next? = some next) (hentrance : d.picture.hasEntrance)
      (hduration : 0 < d.picture.duration.getD 0) (due : Int64)
      (hdue : due = dueAfter now (d.picture.duration.getD 0)) (store : Store)
      (backlog : Backlog) :
    EntersAs e now n
      (((e.direct now n.id d).schedule due (.moveOn next)).told store backlog, none)

theorem direct_told (e : Engine) (store : Store) (backlog : Backlog) (now : Int64) (node : String)
    (d : ImageDirective) :
    (e.told store backlog).direct now node d = (e.direct now node d).told store backlog := by
  have hexchange (e : Engine) (serial : UInt64) (effect : ExitEffect) :
      (e.told store backlog).exchange now node d serial effect =
        (e.exchange now node d serial effect).told store backlog := by
    unfold exchange
    cases d.timing <;> rfl
  have hbring (e : Engine) : (e.told store backlog).bringImage now node d =
      (e.bringImage now node d).told store backlog := by
    unfold bringImage
    rw [told_scene]
    cases e.run.scene.resident? d.picture.slot with
    | none => rfl
    | some resident =>
      cases d.activeExit? with
      | none => rfl
      | some effect => exact hexchange e resident.serial effect
  unfold direct
  dsimp only
  split
  · rfl
  · exact hbring (e.cleared d)

theorem enterImage_told (e : Engine) (store : Store) (backlog : Backlog) (now : Int64) (n : Node)
    (d : ImageDirective) (hd : n.directive? = some d) :
    EntersAs e now n ((e.told store backlog).enterImage now n d) := by
  unfold enterImage
  rw [direct_told]
  dsimp only
  cases hnext : n.next? with
  | none => exact .image d hd store _ none
  | some next =>
    dsimp only
    split
    · rename_i hwaits
      exact .wait d hd next hnext hwaits.1 hwaits.2 _ rfl store _
    · exact .image d hd store _ (some next)

/-- What comes after the effects of a node have been applied is entering the node without them. -/
theorem enters_told (e : Engine) (store : Store) (now : Int64) (n : Node) :
    EntersAs e now n ((e.told store e.run.backlog).enter now { n with onEnter := none }) := by
  obtain ⟨id, next, speaker, text, onEnter, kind⟩ := n
  unfold enter
  dsimp only [Node.next?]
  cases kind with
  | start =>
    dsimp only
    cases given next with
    | none => exact .plain rfl store _ none
    | some next => exact .plain rfl store _ (some next)
  | image d =>
    cases d with
    | none => exact .plain rfl store _ _
    | some d => exact enterImage_told e store _ now ⟨id, next, speaker, text, onEnter, _⟩ d rfl
  | _ => exact .plain rfl _ _ _

theorem enters (e : Engine) (now : Int64) (n : Node) : EntersAs e now n (e.enter now n) := by
  have htold (store : Store) := enters_told e store now n
  obtain ⟨id, next, speaker, text, onEnter, kind⟩ := n
  cases onEnter with
  | none => exact htold e.run.store
  | some effects => exact htold (e.run.store.applyEffects effects)

/-- A directive changes nothing but the images and the timers. -/
theorem direct_frame (e : Engine) (now : Int64) (node : String) (d : ImageDirective) :
    ∃ scene timers imageCounter,
      e.direct now node d = { e with run.scene := scene, timers, imageCounter } := by
  have hd := directs e now node d
  generalize e.direct now node d = after at hd
  cases hd with
  | empty => exact ⟨_, _, _, rfl⟩
  | bring => exact ⟨_, _, _, rfl⟩
  | replace => exact ⟨_, _, _, rfl⟩
  | exchange =>
    unfold exchange
    cases d.timing <;> exact ⟨_, _, _, rfl⟩

/-- Entering a node changes nothing but the store, the backlog, the images and the timers. -/
theorem enter_frame (e : Engine) (now : Int64) (n : Node) :
    ∃ store backlog scene timers imageCounter, (e.enter now n).1 =
      { e with run := { e.run with store, backlog, scene }, timers, imageCounter } := by
  have hentered := enters e now n
  generalize e.enter now n = after at hentered
  cases hentered with
  | plain h store backlog => exact ⟨store, backlog, _, _, _, rfl⟩
  | image d h store backlog =>
    obtain ⟨scene, timers, imageCounter, hd⟩ := direct_frame e now n.id d
    exact ⟨store, backlog, scene, timers, imageCounter, by rw [hd]; rfl⟩
  | wait d h next hnext hentrance hduration due hdue store backlog =>
    obtain ⟨scene, timers, imageCounter, hd⟩ := direct_frame e now n.id d
    exact ⟨store, backlog, scene, timers.schedule due (.moveOn next), imageCounter, by rw [hd]; rfl⟩

theorem node_enter (e : Engine) (now : Int64) (n : Node) :
    (e.enter now n).1.run.node = e.run.node := by
  obtain ⟨store, backlog, scene, timers, imageCounter, hframe⟩ := e.enter_frame now n
  rw [hframe]

end Engine

end BranchingStory
