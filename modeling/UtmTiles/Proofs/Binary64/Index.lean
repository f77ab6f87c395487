import UtmTiles.Proofs.Binary64.Value
import Mathlib.Data.Rat.Floor

/-!
# Indices of doubles

Doubles are rounded to whole numbers by way of their parts, which are read off their bits. The parts
of a finite double have its value (`parts?_eq`), so that its index is the value rounded down, as far
as there are indices (`floorIndex_eq`).
-/

namespace UtmTiles
namespace Binary64

open Float.Model (UnpackedFloat)
open Float.Model.Format (binary64)
open Float.Model.UnpackedFloat (Sign unpackSign)

/-! ## Bits -/

theorem toNat_unpackExponent (b : BitVec 64) :
    (@UnpackedFloat.unpackExponent binary64 b).toNat = b.toNat / 2 ^ 52 % 2 ^ 11 := by
  have hbits := @BitVec.extractLsb_toNat 64 62 52 b
  rw [Nat.shiftRight_eq_div_pow] at hbits
  exact hbits

theorem toNat_unpackMantissa (b : BitVec 64) :
    (@UnpackedFloat.unpackMantissa binary64 b).toNat = b.toNat % 2 ^ 52 :=
  @BitVec.extractLsb_toNat 64 51 0 b

theorem toNat_unpackSign (b : BitVec 64) :
    (@unpackSign binary64 b).toNat = b.toNat / 2 ^ 63 % 2 := by
  have hbits := @BitVec.extractLsb_toNat 64 63 63 b
  rw [Nat.shiftRight_eq_div_pow] at hbits
  exact hbits

theorem toNat_exponentBits (b : UInt64) :
    ((b >>> 52) &&& 0x7FF).toNat = b.toNat / 2 ^ 52 % 2 ^ 11 := by
  rw [UInt64.toNat_and, UInt64.toNat_shiftRight, Nat.shiftRight_eq_div_pow]
  exact Nat.and_two_pow_sub_one_eq_mod _ 11

theorem toNat_fractionBits (b : UInt64) : (b &&& 0xFFFFFFFFFFFFF).toNat = b.toNat % 2 ^ 52 := by
  rw [UInt64.toNat_and]
  exact Nat.and_two_pow_sub_one_eq_mod _ 52

/-- The sign that the highest bit stands for. -/
theorem ofBitVec_unpackSign (b : UInt64) :
    Sign.ofBitVec (@unpackSign binary64 b.toBitVec) =
      if b >>> 63 == 1 then .negative else .positive := by
  have hshift : (b >>> 63).toNat = b.toNat / 2 ^ 63 := by
    rw [UInt64.toNat_shiftRight, Nat.shiftRight_eq_div_pow]
    rfl
  have hunpack : (@unpackSign binary64 b.toBitVec).toNat = b.toNat / 2 ^ 63 := by
    have hlt := b.toNat_lt
    rw [toNat_unpackSign, UInt64.toNat_toBitVec]
    omega
  have hbit : @unpackSign binary64 b.toBitVec = 0#1 ↔ ¬ (b >>> 63 == 1) = true := by
    rw [beq_iff_eq, ← UInt64.toNat_inj, hshift, ← BitVec.toNat_inj, hunpack]
    have hlt := b.toNat_lt
    change _ = 0 ↔ ¬_ = 1
    omega
  unfold Sign.ofBitVec
  by_cases h : (b >>> 63 == 1) = true
  · rw [if_neg fun hzero => hbit.1 hzero h, if_pos h]
  · rw [if_pos (hbit.2 h), if_neg h]

/-! ## Parts -/

/-- The number that the parts of a double stand for. -/
def Parts.value (p : Parts) : ℚ := p.signed * 2 ^ p.exponent

theorem signed_eq (negative : Bool) (m : ℕ) (e : ℤ) :
    signed (if negative then .negative else .positive) (m * 2 ^ e) =
      Parts.value ⟨negative, m, e⟩ := by
  cases negative <;> simp [signed, Parts.value, Parts.signed]

/-- Masks read the same fields of the bits as bit vectors do. -/
theorem parts?_eq_ite (x : Float) : parts? x =
    if x.toBits.toNat / 2 ^ 52 % 2 ^ 11 = 2047 then none
    else if x.toBits.toNat / 2 ^ 52 % 2 ^ 11 = 0 then
      some ⟨x.toBits >>> 63 == 1, x.toBits.toNat % 2 ^ 52, -1074⟩
    else some ⟨x.toBits >>> 63 == 1, x.toBits.toNat % 2 ^ 52 + 2 ^ 52,
      (x.toBits.toNat / 2 ^ 52 % 2 ^ 11 : ℕ) - 1075⟩ := by
  rw [← toNat_exponentBits, ← toNat_fractionBits]
  rfl

/-- The parts of a finite double have its value. -/
theorem parts?_eq {x : Float} (h : x.isFinite = true) :
    ∃ p, parts? x = some p ∧ p.value = value x := by
  change x.toModel.unpack.isFinite = true at h
  rw [parts?_eq_ite]
  have hvalue : value x = exactValue x.toModel.unpack := rfl
  rw [hvalue]
  rcases unpack_cases x.toBits.toBitVec rfl rfl rfl with
    ⟨-, hinf | hnan⟩ | ⟨hexponent, hfraction, hzero⟩ | ⟨hexponent, hpos, hsub⟩ |
      ⟨hmin, hmax, hpos, hnormal⟩
  · rw [show x.toModel.unpack = _ from hinf] at h
    cases h
  · rw [show x.toModel.unpack = _ from hnan] at h
    cases h
  · rw [toNat_unpackExponent, UInt64.toNat_toBitVec] at hexponent
    rw [toNat_unpackMantissa, UInt64.toNat_toBitVec] at hfraction
    rw [show x.toModel.unpack = _ from hzero, hexponent, hfraction]
    exact ⟨_, rfl, by cases (x.toBits >>> 63 == 1) <;> simp [Parts.value, Parts.signed, exactValue]⟩
  · rw [toNat_unpackExponent, UInt64.toNat_toBitVec] at hexponent
    rw [show x.toModel.unpack = _ from hsub, hexponent]
    refine ⟨_, rfl, ?_⟩
    rw [← signed_eq, ← ofBitVec_unpackSign, exactValue, toNat_unpackMantissa]
    rfl
  · rw [toNat_unpackExponent, UInt64.toNat_toBitVec] at hmin hmax
    rw [show x.toModel.unpack = _ from hnormal, if_neg (by omega), if_neg (by omega)]
    refine ⟨_, rfl, ?_⟩
    rw [← signed_eq, ← ofBitVec_unpackSign, exactValue, toNat_unpackMantissa, toNat_unpackExponent,
      Nat.add_comm]
    rfl

theorem Parts.floor_eq (p : Parts) : p.floor = ⌊p.value⌋ := by
  -- the value is whole if the exponent is not negative, else a fraction of a power of two
  rw [floor, Int.fdiv_eq_ediv_of_nonneg _ (Int.natCast_nonneg _)]
  rcases le_total 0 p.exponent with h | h
  · obtain ⟨k, hk⟩ := Int.eq_ofNat_of_zero_le h
    have hvalue : p.value = (p.signed * 2 ^ k : ℤ) := by
      rw [value, hk, zpow_natCast]
      push_cast
      rfl
    rw [hvalue, Int.floor_intCast, scaledTo, hk]
    simp
  · obtain ⟨k, hk⟩ := Int.exists_eq_neg_ofNat h
    have hvalue : p.value = (p.signed : ℚ) / (2 ^ k : ℕ) := by
      rw [value, hk, zpow_neg, zpow_natCast, div_eq_mul_inv]
      push_cast
      rfl
    rw [hvalue, Rat.floor_intCast_div_natCast, scaledTo, hk]
    simp

theorem clampIndex_eq {n : ℤ} (hmin : minIndex ≤ n) (hmax : n ≤ maxIndex) : clampIndex n = n := by
  rw [clampIndex, if_neg (not_lt.2 hmin), if_neg (not_lt.2 hmax)]

/-- The index of a finite double is its value rounded down, unless there is no such index. -/
theorem floorIndex_eq {x : Float} (h : x.isFinite = true) :
    Scalar.floorIndex x = clampIndex ⌊value x⌋ := by
  obtain ⟨p, hp, hvalue⟩ := parts?_eq h
  change index Parts.floor x = _
  rw [index, hp, ← hvalue, ← p.floor_eq]

/-! ## Quotients by an infinity -/

/-- A quotient by an infinity is a zero or a NaN, and both stand for the index 0. -/
theorem index_div_of_isInf {whole : Parts → ℤ}
    (hwhole : ∀ negative, whole ⟨negative, 0, -1074⟩ = 0) (x : Float) {y : Float}
    (h : y.isInf = true) : index whole (x / y) = 0 := by
  have hnan : index whole (.ofModel (.pack .notANumber)) = 0 := rfl
  have hzero : ∀ s, index whole (.ofModel (.pack (.zero s))) = 0 := fun s => by
    cases s with
    | negative => exact congrArg clampIndex (hwhole true)
    | positive => exact congrArg clampIndex (hwhole false)
  obtain ⟨t, ht⟩ := unpack_of_isInf h
  change index whole (.ofModel (.pack (x.toModel.unpack.div binary64 y.toModel.unpack))) = 0
  rw [ht]
  cases x.toModel.unpack with
  | notANumber => exact hnan
  | infinity s => exact hnan
  | zero s => exact hzero _
  | finite s m e hm => exact hzero _

theorem floorIndex_div_of_isInf (x : Float) {y : Float} (h : y.isInf = true) :
    Scalar.floorIndex (x / y) = 0 :=
  index_div_of_isInf (fun negative => by cases negative <;> rfl) x h

theorem ceilIndex_div_of_isInf (x : Float) {y : Float} (h : y.isInf = true) :
    Scalar.ceilIndex (x / y) = 0 :=
  index_div_of_isInf (fun negative => by cases negative <;> rfl) x h

/-- A product that is not finite is infinite. -/
theorem isFinite_or_isInf_mul {x y : Float} (hx : x.isFinite = true) (hy : y.isFinite = true) :
    IsRounded (x * y) (value x * value y) ∨ (x * y).isInf = true := by
  have hnearest := isNearest_mul (isCanonical_of_isFinite hx).1 (isCanonical_of_isFinite hy).1
  rcases lt_or_ge |rounded (value x * value y)| (2 ^ 1024) with h | h
  · exact Or.inl (isRounded_mul hx hy h)
  · have hlarge := unpack_pack_of_large hnearest.isCanonical (by rw [hnearest.value]; exact h)
    obtain ⟨s, -, hs, -⟩ := hlarge
    refine Or.inr ?_
    change (Float.Model.pack (x.toModel.unpack.mul binary64 y.toModel.unpack)).unpack.isInf = true
    rw [hs]
    rfl

/-- A positive double keeps its size when it is multiplied. -/
theorem rounded_mul_pos {x : Float} (hx : x.isFinite = true) (hpos : 0 < value x) {n : ℕ}
    (hn : 0 < n) : 0 < rounded (n * value x) := by
  have hone : (1 : ℚ) ≤ n := by exact_mod_cast hn
  calc 0 < value x := hpos
    _ = rounded (value x) := (rounded_value hx).symm
    _ ≤ rounded (n * value x) := rounded_mono (le_mul_of_one_le_left hpos.le hone)

end Binary64
end UtmTiles
