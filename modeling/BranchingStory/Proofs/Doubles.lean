import BranchingStory.Decimal.Scaling
import BranchingStory.Proofs.Packing
/-!
# Numerals are read as finite doubles

A numeral is read by a product or a quotient of its digits and a power of ten, which may be
infinite. Infinite results are refused; what has to be excluded is a NaN, that is, an infinite power
times zero or an infinity divided by one. The digits are at most `2 ^ 64`, so dividing them by
`10 ^ 308` leaves something finite for the second division.
-/

namespace BranchingStory.Binary64

open Float.Model (Format UnpackedFloat)
open Float.Model.UnpackedFloat

/-! ## Products and quotients -/

theorem lastPlace_one {n : Nat} (h : 0 < n) : lastPlace n 1 = n.log2 - 52 := by
  have hone : Nat.log2 1 = 0 := by decide
  have hreached : 1 * Nat.pow 2 n.log2 ≤ n * Nat.pow 2 0 := by
    simpa using Nat.log2_self_le (Nat.ne_of_gt h)
  simp only [lastPlace, hone, Int.natCast_zero, Int.sub_zero, Int.toNat_natCast,
    Int.toNat_neg_natCast, hreached, if_true]
  omega

theorem roundQuotient_le (n d : Nat) : roundQuotient n d ≤ n / d + 1 := by
  unfold roundQuotient
  simp only
  split
  · omega
  · split <;> omega

/-- A number has no more than 53 bits from the last place of its double on. -/
theorem steps_le (n : Nat) :
    n * Nat.pow 2 (-((n.log2 : Int) - 52)).toNat / (1 * Nat.pow 2 ((n.log2 : Int) - 52).toNat) <
      2 ^ 53 := by
  have hpos : 0 < 1 * 2 ^ ((n.log2 : Int) - 52).toNat := Nat.mul_pos Nat.one_pos (Nat.two_pow_pos _)
  refine (Nat.div_lt_iff_lt_mul hpos).2 ?_
  have hexponents : n.log2 + 1 + (-((n.log2 : Int) - 52)).toNat =
      53 + ((n.log2 : Int) - 52).toNat := by omega
  calc n * 2 ^ (-((n.log2 : Int) - 52)).toNat
      < 2 ^ (n.log2 + 1) * 2 ^ (-((n.log2 : Int) - 52)).toNat :=
        Nat.mul_lt_mul_of_pos_right Nat.lt_log2_self (Nat.two_pow_pos _)
    _ = 2 ^ 53 * (1 * 2 ^ ((n.log2 : Int) - 52).toNat) := by
        rw [← Nat.pow_add, hexponents, Nat.pow_add, Nat.one_mul]

/-- The bits of the double nearest to a whole number say how long the number is. -/
theorem nearestBits_bounds {n : Nat} (h : 0 < n) :
    (n.log2 + 1022) * 2 ^ 52 ≤ nearestBits n 1 ∧ nearestBits n 1 ≤ (n.log2 + 1024) * 2 ^ 52 := by
  have hsteps := Nat.le_trans (roundQuotient_le _ _) (steps_le n)
  have hplace : ((n.log2 : Int) - 52 + 1074).toNat = n.log2 + 1022 := by omega
  simp only [nearestBits, if_neg (Nat.ne_of_gt h), lastPlace_one h, hplace]
  generalize roundQuotient _ _ = steps at *
  simp only [Nat.pow_eq]
  constructor <;> omega

theorem le_nearestBits {n : Nat} (h : 0 < n) : 2 ^ 52 ≤ nearestBits n 1 :=
  Nat.le_trans (Nat.le_mul_of_pos_left _ (Nat.succ_pos _)) (nearestBits_bounds h).1

end BranchingStory.Binary64

namespace BranchingStory.Decimal

open Binary64
open Float.Model.UnpackedFloat

/-! ## Numerals -/

theorem magnitudeBits_of_nonneg {n k : Nat} (hn : 0 < n) (hk : k ≤ 310) :
    magnitudeBits ⟨n, k⟩ = nearestBits (n * Nat.pow 10 k) 1 := by
  have hhuge : ¬ (310 < (k : Int)) := by omega
  have htiny : ¬ ((k : Int) < -(330 + n.log2 : Int)) := by omega
  simp only [magnitudeBits, if_neg (Nat.ne_of_gt hn), if_neg hhuge, if_neg htiny,
    Int.toNat_natCast, Int.toNat_neg_natCast]

/-- The whole numbers of 64 bits are far from the ends of the range of doubles. -/
theorem unpack_wholeToFloat {n : Int} (h0 : n ≠ 0) (h : n.natAbs < UInt64.size) :
    ∃ s m e h, (wholeToFloat n).toModel.unpack = .finite s m e h ∧ m.log2 = 52 ∧ e ≤ 12 := by
  have hpos : 0 < n.natAbs := by omega
  have hlog : n.natAbs.log2 < 64 := (Nat.log2_lt (Nat.ne_of_gt hpos)).2 h
  obtain ⟨hlow, hhigh⟩ := nearestBits_bounds hpos
  have hfinite : nearestBits n.natAbs 1 < infinityBits :=
    Nat.lt_of_le_of_lt hhigh (Nat.mul_lt_mul_of_pos_right (by omega) (Nat.two_pow_pos 52))
  have hbits : min (magnitudeBits ⟨n.natAbs, 0⟩) infinityBits = nearestBits n.natAbs 1 := by
    have hwhole : magnitudeBits ⟨n.natAbs, 0⟩ = nearestBits n.natAbs 1 := by
      simpa using magnitudeBits_of_nonneg hpos (Nat.zero_le 310)
    rw [hwhole, Nat.min_eq_left (Nat.le_of_lt hfinite)]
  rw [wholeToFloat, toFloat, hbits]
  obtain ⟨s, m, hm, hu, hlog2⟩ := unpack_toFloat_of_normal (decide (n < 0))
    (le_nearestBits hpos) hfinite
  exact ⟨s, m, _, hm, hu, hlog2, by omega⟩

theorem isFinite_wholeToFloat {n : Int} (h : n.natAbs < UInt64.size) :
    (wholeToFloat n).isFinite := by
  by_cases h0 : n = 0
  · rw [h0]
    decide
  · obtain ⟨s, m, e, hm, hu, -⟩ := unpack_wholeToFloat h0 h
    change (wholeToFloat n).toModel.unpack.isFinite = true
    rw [hu]
    rfl

end BranchingStory.Decimal
