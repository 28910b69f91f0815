import BranchingStory.Play.Overflow
import Mathlib.Algebra.Group.Int.Defs
import Mathlib.Algebra.Group.Nat.Defs
/-!
# Steps that may fail

Steps in a row come to a result when each of them does. Sums of times and serial numbers are those
of the integers, or there are none.
-/

namespace BranchingStory

/-! ## Steps in a row -/

section
variable {ε α β : Type} {x : Except ε α}

theorem bind_eq_ok {g : α → Except ε β} {b : β} :
    x.bind g = .ok b ↔ ∃ a, x = .ok a ∧ g a = .ok b := by
  cases x <;> simp [Except.bind]

theorem map_eq_ok {g : α → β} {b : β} : x.map g = .ok b ↔ ∃ a, x = .ok a ∧ g a = b := by
  cases x <;> simp [Except.map]

theorem isOk_iff : x.isOk ↔ ∃ a, x = .ok a := by
  cases x <;> simp [Except.isOk, Except.toBool]

end

/-! ## Sums in range -/

section
variable {a b c : Int64}

theorem sumOf_eq_ok : sumOf a b = .ok c ↔ c.toInt = a.toInt + b.toInt := by
  have hsmall := c.le_toInt
  have hlarge := c.toInt_lt
  unfold sumOf
  split
  · rename_i hover
    simp only [BitVec.saddOverflow, Bool.or_eq_true, decide_eq_true_eq, Int64.toInt_toBitVec]
      at hover
    refine ⟨nofun, fun hsum => ?_⟩
    omega
  · rename_i hroom
    have hsum : (a + b).toInt = a.toInt + b.toInt := BitVec.toInt_add_of_not_saddOverflow hroom
    rw [← hsum, Except.ok.injEq, Int64.toInt_inj, eq_comm]

theorem differenceOf_eq_ok : differenceOf a b = .ok c ↔ c.toInt = a.toInt - b.toInt := by
  have hsmall := c.le_toInt
  have hlarge := c.toInt_lt
  unfold differenceOf
  split
  · rename_i hover
    simp only [BitVec.ssubOverflow, Bool.or_eq_true, decide_eq_true_eq, Int64.toInt_toBitVec]
      at hover
    refine ⟨nofun, fun hdifference => ?_⟩
    omega
  · rename_i hroom
    have hdifference : (a - b).toInt = a.toInt - b.toInt :=
      BitVec.toInt_sub_of_not_ssubOverflow hroom
    rw [← hdifference, Except.ok.injEq, Int64.toInt_inj, eq_comm]

theorem toInt_max_zero (a : Int64) : (max a 0).toInt = max a.toInt 0 := by
  change (if a ≤ 0 then 0 else a).toInt = _
  split
  · rename_i h
    exact (Int.max_eq_right (Int64.le_iff_toInt_le.1 h)).symm
  · rename_i h
    exact (Int.max_eq_left (Int.le_of_not_le (mt Int64.le_iff_toInt_le.2 h))).symm

end

theorem toNat_add_one (n : UInt64) : (n + 1).toNat = (n.toNat + 1) % 2 ^ 64 := by
  have hone : (1 : UInt64).toNat = 1 := rfl
  rw [UInt64.toNat_add, hone]

theorem uaddOverflow_one {serial : UInt64} :
    serial.toBitVec.uaddOverflow 1 ↔ serial.toNat + 1 = 2 ^ 64 := by
  have hlarge := serial.toNat_lt
  unfold BitVec.uaddOverflow
  rw [decide_eq_true_iff]
  change 2 ^ 64 ≤ serial.toNat + 1 ↔ _
  omega

theorem nextSerial_eq_ok {serial next : UInt64} :
    nextSerial serial = .ok next ↔ next.toNat = serial.toNat + 1 := by
  have hlarge := next.toNat_lt
  unfold nextSerial
  split
  · rename_i hover
    rw [uaddOverflow_one] at hover
    refine ⟨nofun, fun hsum => ?_⟩
    omega
  · rename_i hroom
    have hsum : (serial + 1).toNat = serial.toNat + 1 :=
      BitVec.toNat_add_of_not_uaddOverflow hroom
    rw [← hsum, Except.ok.injEq, UInt64.toNat_inj, eq_comm]

/-- Counting round makes a number smaller just where there is no number after it. -/
theorem add_one_lt_iff {serial : UInt64} :
    serial + 1 < serial ↔ nextSerial serial = .error .addition := by
  have hsum := toNat_add_one serial
  have hlarge := serial.toNat_lt
  rw [UInt64.lt_iff_toNat_lt]
  unfold nextSerial
  split
  · rename_i hover
    rw [uaddOverflow_one] at hover
    exact ⟨fun _ => rfl, fun _ => by omega⟩
  · rename_i hroom
    rw [uaddOverflow_one] at hroom
    exact ⟨fun hless => by omega, nofun⟩

end BranchingStory
