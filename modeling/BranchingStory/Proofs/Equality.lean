import BranchingStory.Play.Evaluation
import Mathlib
/-!
# The forgiving equality

Two values of different types are compared by turning one of them into a value of another type, and
once more if that is not enough. `Value.Settles` says what is turned into what and which verdict
comes of it. There is a verdict for all values, after at most two turns, and it is the same from
either side (`Comparison.laws_of_equality`). That a NaN is not equal to itself does not matter here.
-/

namespace BranchingStory

/-! ## Values -/

namespace Value

mutual

theorem same_comm (a b : Value) : a.same b = b.same a := by
  cases a with
  | list items =>
    cases b with
    | list others => exact sameItems_comm items others
    | _ => rfl
  | number x =>
    cases b with
    | number y => exact BEq.comm
    | _ => rfl
  | bool x =>
    cases b with
    | bool y => exact BEq.comm
    | _ => rfl
  | text s =>
    cases b with
    | text t => exact BEq.comm
    | _ => rfl

theorem sameItems_comm (items others : List Value) :
    sameItems items others = sameItems others items := by
  cases items with
  | nil => cases others <;> rfl
  | cons a rest =>
    cases others with
    | nil => rfl
    | cons b more =>
      change (a.same b && sameItems rest more) = (b.same a && sameItems more rest)
      rw [same_comm a b, sameItems_comm rest more]

end

theorem looseEqFlat_comm (a b : Value) : a.looseEqFlat b = b.looseEqFlat a := by
  cases a <;> cases b <;> exact BEq.comm

theorem exists_of_type_list {a : Value} (h : a.type = .list) : ∃ items, a = .list items := by
  cases a with
  | list items => exact ⟨items, rfl⟩
  | _ => cases h

theorem exists_of_type_bool {a : Value} (h : a.type = .bool) : ∃ b, a = .bool b := by
  cases a with
  | bool b => exact ⟨b, rfl⟩
  | _ => cases h

/-- Unless both values are lists, it is their flat forms that are compared. -/
theorem looseEq_of_ne_list {a b : Value} (h : ¬ (a.type = .list ∧ b.type = .list)) :
    a.looseEq b = a.flat.looseEqFlat b.flat := by
  cases a <;> cases b <;> first | rfl | exact absurd ⟨rfl, rfl⟩ h

theorem looseEq_comm (a b : Value) : a.looseEq b = b.looseEq a := by
  by_cases h : a.type = .list ∧ b.type = .list
  · obtain ⟨items, rfl⟩ := exists_of_type_list h.1
    obtain ⟨others, rfl⟩ := exists_of_type_list h.2
    exact sameItems_comm items others
  · rw [looseEq_of_ne_list h, looseEq_of_ne_list fun hboth => h hboth.symm, looseEqFlat_comm]

/-! ## Turning values into others -/

/-- How two values are compared, and how often one of them is turned into a value of another type.
Booleans are turned into numbers, and if there is none, lists into their texts. -/
inductive Settles : Nat → Value → Value → Bool → Prop
  | bools (a b : Bool) : Settles 0 (.bool a) (.bool b) (a == b)
  | numbers (x y : Float) : Settles 0 (.number x) (.number y) (x == y)
  | texts (s t : String) : Settles 0 (.text s) (.text t) (s == t)
  | lists (items others : List Value) :
    Settles 0 (.list items) (.list others) (sameItems items others)
  | numberText (x : Float) (s : String) : Settles 0 (.number x) (.text s) (looseNumber s == x)
  | textNumber (s : String) (x : Float) : Settles 0 (.text s) (.number x) (looseNumber s == x)
  | boolLeft {turns : Nat} {b : Bool} {other : Value} {verdict : Bool} (hother : other.type ≠ .bool)
      (h : Settles turns (.number (if b then 1 else 0)) other verdict) :
    Settles (turns + 1) (.bool b) other verdict
  | boolRight {turns : Nat} {b : Bool} {other : Value} {verdict : Bool}
      (hother : other.type ≠ .bool)
      (h : Settles turns other (.number (if b then 1 else 0)) verdict) :
    Settles (turns + 1) other (.bool b) verdict
  | listLeft {turns : Nat} {items : List Value} {other : Value} {verdict : Bool}
      (hbool : other.type ≠ .bool) (hlist : other.type ≠ .list)
      (h : Settles turns (.text (list items).display) other verdict) :
    Settles (turns + 1) (.list items) other verdict
  | listRight {turns : Nat} {items : List Value} {other : Value} {verdict : Bool}
      (hbool : other.type ≠ .bool) (hlist : other.type ≠ .list)
      (h : Settles turns (.text (list items).display) other verdict) :
    Settles (turns + 1) other (.list items) verdict

/-- There is only one verdict, that of the forgiving equality. -/
theorem Settles.eq_looseEq {turns : Nat} {a b : Value} {verdict : Bool}
    (h : Settles turns a b verdict) : verdict = a.looseEq b := by
  induction h with
  | bools | numbers | texts | lists | textNumber => rfl
  | numberText x s => exact BEq.comm
  | boolLeft hother h ih =>
    rename_i other _
    rw [ih]
    cases other with
    | bool c => exact absurd rfl hother
    | _ => rfl
  | boolRight hother h ih =>
    rename_i other _
    rw [ih]
    cases other with
    | bool c => exact absurd rfl hother
    | _ => rfl
  | listLeft hbool hlist h ih =>
    rename_i other _
    rw [ih]
    cases other with
    | list others => exact absurd rfl hlist
    | _ => rfl
  | listRight hbool hlist h ih =>
    rename_i other _
    rw [ih, looseEq_comm other]
    cases other with
    | list others => exact absurd rfl hlist
    | _ => rfl

/-- Numbers and texts are compared as they are. -/
theorem exists_settles_plain {a b : Value} (ha : a.type ≠ .bool ∧ a.type ≠ .list)
    (hb : b.type ≠ .bool ∧ b.type ≠ .list) : ∃ verdict, Settles 0 a b verdict := by
  cases a with
  | bool => exact absurd rfl ha.1
  | list => exact absurd rfl ha.2
  | number x =>
    cases b with
    | bool => exact absurd rfl hb.1
    | list => exact absurd rfl hb.2
    | number y => exact ⟨_, .numbers x y⟩
    | text t => exact ⟨_, .numberText x t⟩
  | text s =>
    cases b with
    | bool => exact absurd rfl hb.1
    | list => exact absurd rfl hb.2
    | number y => exact ⟨_, .textNumber s y⟩
    | text t => exact ⟨_, .texts s t⟩

/-- Without a boolean there is at most one list to turn into its text. -/
theorem exists_settles_of_ne_bool {a b : Value} (ha : a.type ≠ .bool) (hb : b.type ≠ .bool) :
    ∃ turns ≤ 1, ∃ verdict, Settles turns a b verdict := by
  by_cases hla : a.type = .list <;> by_cases hlb : b.type = .list
  · obtain ⟨items, rfl⟩ := exists_of_type_list hla
    obtain ⟨others, rfl⟩ := exists_of_type_list hlb
    exact ⟨0, Nat.zero_le 1, _, .lists items others⟩
  · obtain ⟨items, rfl⟩ := exists_of_type_list hla
    obtain ⟨verdict, h⟩ := exists_settles_plain (a := .text (list items).display) (b := b)
      ⟨nofun, nofun⟩ ⟨hb, hlb⟩
    exact ⟨1, Nat.le_refl 1, verdict, .listLeft hb hlb h⟩
  · obtain ⟨items, rfl⟩ := exists_of_type_list hlb
    obtain ⟨verdict, h⟩ := exists_settles_plain (a := .text (list items).display) (b := a)
      ⟨nofun, nofun⟩ ⟨ha, hla⟩
    exact ⟨1, Nat.le_refl 1, verdict, .listRight ha hla h⟩
  · obtain ⟨verdict, h⟩ := exists_settles_plain ⟨ha, hla⟩ ⟨hb, hlb⟩
    exact ⟨0, Nat.zero_le 1, verdict, h⟩

theorem exists_settles (a b : Value) : ∃ turns ≤ 2, ∃ verdict, Settles turns a b verdict := by
  by_cases ha : a.type = .bool <;> by_cases hb : b.type = .bool
  · obtain ⟨x, rfl⟩ := exists_of_type_bool ha
    obtain ⟨y, rfl⟩ := exists_of_type_bool hb
    exact ⟨0, Nat.zero_le 2, _, .bools x y⟩
  · obtain ⟨x, rfl⟩ := exists_of_type_bool ha
    obtain ⟨turns, hturns, verdict, h⟩ :=
      exists_settles_of_ne_bool (a := .number (if x then 1 else 0)) nofun hb
    exact ⟨turns + 1, Nat.succ_le_succ hturns, verdict, .boolLeft hb h⟩
  · obtain ⟨y, rfl⟩ := exists_of_type_bool hb
    obtain ⟨turns, hturns, verdict, h⟩ :=
      exists_settles_of_ne_bool (b := .number (if y then 1 else 0)) ha nofun
    exact ⟨turns + 1, Nat.succ_le_succ hturns, verdict, .boolRight ha h⟩
  · obtain ⟨turns, hturns, h⟩ := exists_settles_of_ne_bool ha hb
    exact ⟨turns, Nat.le_succ_of_le hturns, h⟩

/-- The forgiving equality is settled after at most two turns. -/
theorem settles_looseEq (a b : Value) : ∃ turns ≤ 2, Settles turns a b (a.looseEq b) := by
  obtain ⟨turns, hturns, verdict, h⟩ := exists_settles a b
  rw [← h.eq_looseEq]
  exact ⟨turns, hturns, h⟩

end Value

/-! ## Comparisons -/

theorem Value.compareNumbers_eq_false {a b : Value} (h : a.number? = none ∨ b.number? = none)
    (order : Float → Float → Bool) : a.compareNumbers order b = false := by
  cases a with
  | number x =>
    cases b with
    | number y => rcases h with h | h <;> cases h
    | _ => rfl
  | _ => rfl

namespace Comparison

/-- What holds no list is compared as it is. -/
theorem leftSide_of_ne_list {value : Value} (h : value.type ≠ .list) (right : Option Value) :
    leftSide (some value) right = value := by
  cases value with
  | list items => exact absurd rfl h
  | _ => rfl

/-- Orderings hold only where there is a number on the right, and on the left a number, a list or
nothing. -/
theorem holds_eq_false {c : Comparison} (hequal : c ≠ .equal) (hdifferent : c ≠ .different)
    {left right : Option Value}
    (h : right.bind Value.number? = none ∨
      ∃ value, left = some value ∧ value.type ≠ .number ∧ value.type ≠ .list) :
    c.holds left right = false := by
  cases right with
  | none =>
    cases c with
    | different => exact absurd rfl hdifferent
    | _ => rfl
  | some other =>
    have hsides : (leftSide left (some other)).number? = none ∨ other.number? = none := by
      rcases h with hright | ⟨value, rfl, hnumber, hlist⟩
      · exact .inr hright
      · left
        rw [leftSide_of_ne_list hlist]
        cases value with
        | number x => exact absurd rfl hnumber
        | _ => rfl
    cases c with
    | equal => exact absurd rfl hequal
    | different => exact absurd rfl hdifferent
    | _ => exact Value.compareNumbers_eq_false hsides _

theorem different_holds (left right : Option Value) :
    different.holds left right = !equal.holds left right := by
  cases right <;> rfl

/-! ## Main result -/

/-- The forgiving equality comes to a verdict on any two values, after at most two turns; it is the
only one, and the same from either side. With any operands, or none, `!=` holds exactly when `==`
does not, and an ordering does not hold unless there is a number on the right and no text or boolean
on the left. -/
theorem laws_of_equality :
    (∀ a b : Value, (∃ turns ≤ 2, Value.Settles turns a b (a.looseEq b)) ∧
      ∀ turns verdict, Value.Settles turns a b verdict → verdict = a.looseEq b) ∧
    (∀ a b : Value, a.looseEq b = b.looseEq a) ∧
    (∀ left right, different.holds left right = !equal.holds left right) ∧
    ∀ c : Comparison, c ≠ .equal → c ≠ .different → ∀ left right,
      (right.bind Value.number? = none ∨
        ∃ value, left = some value ∧ value.type ≠ .number ∧ value.type ≠ .list) →
      c.holds left right = false :=
  ⟨fun a b => ⟨Value.settles_looseEq a b, fun _ _ h => h.eq_looseEq⟩, Value.looseEq_comm,
    different_holds, fun _ hequal hdifferent _ _ h => holds_eq_false hequal hdifferent h⟩

/-- A boolean is compared with a list in a list by way of two numbers, and neither a text on the
left nor a list on the right is ordered. -/
theorem laws_of_equality_one :
    (∃ turns ≤ 2, Value.Settles turns (.bool true) (.list [.list [.text " 1 "]]) true) ∧
    (∀ turns verdict, Value.Settles turns (.bool true) (.list [.list [.text " 1 "]]) verdict →
      verdict = true) ∧
    greater.holds (some (.text "2")) (some (.number 1)) = false ∧
    atMost.holds none (some (.list [])) = false := by
  obtain ⟨hsettles, -, -, horders⟩ := laws_of_equality
  have hverdict : (Value.bool true).looseEq (.list [.list [.text " 1 "]]) = true := by
    decide +kernel
  have hone := hsettles (.bool true) (.list [.list [.text " 1 "]])
  rw [hverdict] at hone
  refine ⟨hone.1, hone.2, ?_, ?_⟩
  · exact horders .greater (by decide) (by decide) _ _ (.inr ⟨.text "2", rfl, by decide, by decide⟩)
  · exact horders .atMost (by decide) (by decide) _ _ (.inl rfl)

/-- Nothing on the left is ordered like zero, and a list like its length. -/
example : less.holds none (some (.number 1)) = true ∧
    atLeast.holds (some (.list [.text "a", .text "b"])) (some (.number 2)) = true := by
  decide +kernel

end Comparison

end BranchingStory
