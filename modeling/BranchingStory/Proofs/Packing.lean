import BranchingStory.Decimal.Binary64
import Mathlib
/-!
# Doubles and their bits

A double is a pattern of bits, which every operation takes apart and every result is packed into.
What is said here is which patterns stand for finite doubles and which for none at all, that packing
undoes taking apart, and what becomes of the magnitude bits that a double is made from.
-/

namespace BranchingStory.Binary64

open Float.Model (Format UnpackedFloat)
open Float.Model.UnpackedFloat

/-! ## Parts -/

theorem toNat_unpackExponent (b : UInt64) :
    (@unpackExponent .binary64 b.toBitVec).toNat = b.toNat / 2 ^ 52 % 2 ^ 11 := by
  simp [unpackExponent, BitVec.extractLsb, BitVec.extractLsb', Nat.shiftRight_eq_div_pow]

theorem toNat_unpackMantissa (b : UInt64) :
    (@unpackMantissa .binary64 b.toBitVec).toNat = b.toNat % 2 ^ 52 := by
  simp [unpackMantissa, BitVec.extractLsb, BitVec.extractLsb']

theorem toBitVec_ofBitVec (v : BitVec 1) : (Sign.ofBitVec v).toBitVec = v := by
  revert v
  decide

/-- A pattern of bits is put together from its parts. -/
theorem packComponents_eq_self {b : BitVec Format.binary64.numBits} {e : BitVec 11} {m : BitVec 52}
    (he : unpackExponent b = e) (hm : unpackMantissa b = m) :
    packComponents .binary64 (Sign.ofBitVec (unpackSign b)) e m = b := by
  subst he hm
  rw [packComponents, toBitVec_ofBitVec]
  simp only [unpackSign, unpackExponent, unpackMantissa, BitVec.extractLsb]
  ext i hi
  grind

/-- The mantissa of a normal double has a bit that is not written. -/
theorem toNat_one_append (m : BitVec 52) : (1#1 ++ m).toNat = 2 ^ 52 + m.toNat := by
  rw [BitVec.toNat_append]
  exact (Nat.shiftLeft_add_eq_or_of_lt m.isLt 1).symm

theorem log2_one_append (m : BitVec 52) : (1#1 ++ m).toNat.log2 = 52 := by
  have hm := m.isLt
  rw [toNat_one_append]
  exact (Nat.log2_eq_iff (by omega)).2 ⟨by omega, by omega⟩

/-! ## Packing -/

theorem exponentBias_eq : ((Format.binary64.exponentBias : Int) + (52 : Nat)) = 1075 := rfl

theorem biased_eq (e : Int) :
    e + (Format.binary64.exponentBias : Int) + (52 : Nat) = e + 1075 := by
  rw [Int.add_assoc, exponentBias_eq]

theorem pack_normal (s : Sign) {m : Nat} {e : Int} (h : 0 < m) (hm : m.log2 = 52)
    (hlow : -1074 ≤ e) (hhigh : e ≤ 971) :
    pack .binary64 (.finite s m e h) =
      packComponents .binary64 s (BitVec.ofNat _ (e + 1075).toNat) (BitVec.ofNat _ m) := by
  simp only [pack, biased_eq, hm]
  rw [if_neg (by simp; omega), if_pos (by rfl)]

theorem pack_subnormal (s : Sign) {m : Nat} (h : 0 < m) (hm : m < 2 ^ 52) :
    pack .binary64 (.finite s m (-1074) h) = packComponents .binary64 s 0 (BitVec.ofNat _ m) := by
  have hlog : m.log2 < 52 := (Nat.log2_lt (Nat.ne_of_gt h)).2 hm
  have hbits : Format.binary64.mantissaBits = 53 := rfl
  simp only [pack, hbits]
  rw [if_neg (by decide), if_neg (by omega)]
  rfl

/-- A pattern of bits that is no NaN stands for a double of its own. -/
theorem pack_unpack {b : BitVec Format.binary64.numBits}
    (h : (unpack .binary64 b).isNaN = false) : pack .binary64 (unpack .binary64 b) = b := by
  have hexponent : (unpackExponent b).toNat < 2 ^ 11 := (unpackExponent b).isLt
  have hmantissa : (unpackMantissa b).toNat < 2 ^ 52 := (unpackMantissa b).isLt
  unfold unpack at h ⊢
  simp only [exponentBias_eq] at h ⊢
  split at h
  · rename_i hfull
    split at h
    · rename_i hzero
      rw [if_pos hfull, if_pos hzero]
      exact packComponents_eq_self hfull hzero
    · cases h
  · rename_i hfull
    rw [if_neg hfull]
    split
    · rename_i hsmall
      split
      · rename_i hzero
        exact packComponents_eq_self hsmall hzero
      · have he : ((unpackExponent b).toNat : Int) - 1075 + 1 = -1074 := by
          rw [hsmall]
          rfl
        simp only [he]
        rw [pack_subnormal _ _ hmantissa]
        refine packComponents_eq_self hsmall ?_
        rw [BitVec.ofNat_toNat, BitVec.setWidth_eq]
    · rename_i hsmall
      have hne : (unpackExponent b).toNat ≠ 2047 := fun h => hfull (BitVec.eq_of_toNat_eq h)
      have hpos : (unpackExponent b).toNat ≠ 0 := fun h => hsmall (BitVec.eq_of_toNat_eq h)
      rw [pack_normal _ _ (log2_one_append (unpackMantissa b)) (by omega) (by omega)]
      refine packComponents_eq_self ?_ ?_
      · apply BitVec.eq_of_toNat_eq
        simp
      · apply BitVec.eq_of_toNat_eq
        have hm := toNat_one_append (unpackMantissa b)
        rw [BitVec.toNat_ofNat, hm, Nat.add_mod_left, Nat.mod_eq_of_lt hmantissa]

/-! ## Finite doubles -/

theorem isNaN_unpack (b : BitVec Format.binary64.numBits) :
    (unpack .binary64 b).isNaN = true ↔ unpackExponent b = -1#11 ∧ unpackMantissa b ≠ 0#52 := by
  unfold unpack
  simp only
  split
  · split <;> simp_all [UnpackedFloat.isNaN]
  · split
    · split <;> simp_all [UnpackedFloat.isNaN]
    · simp_all [UnpackedFloat.isNaN]

/-- The bits of a double with the given sign and magnitude. -/
def signedBits (negative : Bool) (magnitude : Nat) : UInt64 :=
  UInt64.ofNat (magnitude + if negative then Nat.pow 2 63 else 0)

theorem toNat_signedBits (negative : Bool) {b : Nat} (h : b ≤ infinityBits) :
    (signedBits negative b).toNat = b + if negative then 2 ^ 63 else 0 := by
  have hb : b ≤ 2047 * 2 ^ 52 := h
  have hlt : (b + if negative then 2 ^ 63 else 0) < 2 ^ 64 := by
    cases negative <;> simp only [Bool.false_eq_true, if_true, if_false] <;> omega
  exact Nat.mod_eq_of_lt hlt

theorem toNat_exponent_signedBits (negative : Bool) {b : Nat} (h : b ≤ infinityBits) :
    (@unpackExponent .binary64 (signedBits negative b).toBitVec).toNat = b / 2 ^ 52 := by
  have hb : b ≤ 2047 * 2 ^ 52 := h
  rw [toNat_unpackExponent, toNat_signedBits negative h]
  cases negative <;> simp only [Bool.false_eq_true, if_true, if_false] <;> omega

theorem toNat_mantissa_signedBits (negative : Bool) {b : Nat} (h : b ≤ infinityBits) :
    (@unpackMantissa .binary64 (signedBits negative b).toBitVec).toNat = b % 2 ^ 52 := by
  rw [toNat_unpackMantissa, toNat_signedBits negative h]
  cases negative <;> simp only [Bool.false_eq_true, if_true, if_false] <;> omega

/-- Magnitude bits up to those of infinity stand for a double of their own. -/
theorem unpack_toFloat (negative : Bool) {b : Nat} (h : b ≤ infinityBits) :
    (toFloat negative b).toModel.unpack = unpack .binary64 (signedBits negative b).toBitVec := by
  refine congrArg (unpack .binary64) (pack_unpack (b := (signedBits negative b).toBitVec) ?_)
  rw [Bool.eq_false_iff, Ne, isNaN_unpack]
  rintro ⟨hexponent, hmantissa⟩
  have he := toNat_exponent_signedBits negative h
  rw [hexponent] at he
  apply hmantissa
  apply BitVec.eq_of_toNat_eq
  rw [toNat_mantissa_signedBits negative h]
  have hb : b ≤ 2047 * 2 ^ 52 := h
  have hfull : (-1#11 : BitVec 11).toNat = 2047 := rfl
  simp only [BitVec.toNat_ofNat]
  omega

theorem unpack_toFloat_of_normal (negative : Bool) {b : Nat} (hlow : 2 ^ 52 ≤ b)
    (hhigh : b < infinityBits) :
    ∃ s m h, (toFloat negative b).toModel.unpack = .finite s m ((b / 2 ^ 52 : Nat) - 1075) h ∧
      m.log2 = 52 := by
  have hb : b < 2047 * 2 ^ 52 := hhigh
  have he := toNat_exponent_signedBits negative (Nat.le_of_lt hhigh)
  rw [unpack_toFloat negative (Nat.le_of_lt hhigh)]
  set bits : BitVec Format.binary64.numBits := (signedBits negative b).toBitVec
  have hfull : unpackExponent bits ≠ -1#11 := by
    intro h
    have hfull : (-1#11 : BitVec 11).toNat = b / 2 ^ 52 := by rw [← he, h]
    change 2047 = _ at hfull
    omega
  have hsmall : unpackExponent bits ≠ 0#11 := by
    intro h
    have hsmall : (0#11 : BitVec 11).toNat = b / 2 ^ 52 := by rw [← he, h]
    change 0 = _ at hsmall
    omega
  have hpos : 0 < (1#1 ++ unpackMantissa bits).toNat := by
    rw [toNat_one_append]
    exact Nat.add_pos_left (Nat.two_pow_pos 52) _
  refine ⟨Sign.ofBitVec (unpackSign bits), (1#1 ++ unpackMantissa bits).toNat, hpos, ?_,
    log2_one_append (unpackMantissa bits)⟩
  unfold unpack
  simp only [hfull, hsmall, if_false, he]
  rfl

end BranchingStory.Binary64
