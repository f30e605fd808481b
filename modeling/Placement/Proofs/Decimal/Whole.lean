import Mathlib
import Placement.Decimal.Numeral

/-!
# Whole numbers as doubles

A NaN comes about where there was one before, or from zeros and infinities. The double nearest to a
whole number is a whole number rounded, at most scaled by one, so it is no NaN.
-/

namespace Placement.Decimal

open Float.Model

variable {u : UnpackedFloat} {spec : Format}

/-! ## Rounding -/

theorem isNaN_roundWithAccuracy (spec : Format) (s : UnpackedFloat.Sign) (m : Nat) (e : Int)
    (a : UnpackedFloat.Accuracy) :
    (UnpackedFloat.roundWithAccuracy spec s m e a).isNaN = false := by
  unfold UnpackedFloat.roundWithAccuracy
  simp only
  split
  · rfl
  · rfl

theorem isNaN_ofNat (spec : Format) (n : Nat) : (UnpackedFloat.ofNat spec n).isNaN = false := by
  unfold UnpackedFloat.ofNat UnpackedFloat.ofInt UnpackedFloat.normalize
  split
  · exact isNaN_roundWithAccuracy _ _ _ _ _
  · rfl
  · exact isNaN_roundWithAccuracy _ _ _ _ _

theorem isNaN_mul_finite (hu : u.isNaN = false) {s : UnpackedFloat.Sign} {m : Nat} {e : Int}
    {h : 0 < m} :
    (UnpackedFloat.mul spec u (.finite s m e h)).isNaN = false := by
  cases u with
  | notANumber => cases hu
  | infinity _ => rfl
  | zero _ => rfl
  | finite _ _ _ _ => exact isNaN_roundWithAccuracy _ _ _ _ _

/-- A power of ten that is no fraction comes in by a multiplication. -/
theorem isNaN_ofScientific (m : Nat) {e : Int} (he : 0 ≤ e) :
    (UnpackedFloat.ofScientific .binary64 m e).isNaN = false := by
  unfold UnpackedFloat.ofScientific
  split
  · rfl
  · split
    · rfl
    · split
      · rfl
      · exact isNaN_mul_finite rfl

theorem isNaN_neg (hu : u.isNaN = false) : u.neg.isNaN = false := by
  cases u with
  | notANumber => cases hu
  | infinity _ => rfl
  | zero _ => rfl
  | finite _ _ _ _ => rfl

/-! ## Packing -/

theorem isNaN_unpack_packComponents {s : UnpackedFloat.Sign} {e : BitVec spec.exponentBits}
    {m : BitVec spec.mantissaBitsWithoutImplicit} (h : e = -1#_ → m = 0#_) :
    (UnpackedFloat.unpack spec (UnpackedFloat.packComponents spec s e m)).isNaN = false := by
  unfold UnpackedFloat.unpack
  simp only [UnpackedFloat.unpackMantissa_packComponents,
    UnpackedFloat.unpackExponent_packComponents]
  split
  · next he =>
    rw [if_pos (h he)]
    rfl
  · split
    · split
      · rfl
      · rfl
    · rfl

/-- What is no NaN is none after it has been packed: the greatest exponent is left to the
infinities. -/
theorem isNaN_unpack_pack (hu : u.isNaN = false) :
    (UnpackedFloat.unpack .binary64 (UnpackedFloat.pack .binary64 u)).isNaN = false := by
  unfold UnpackedFloat.pack
  cases u with
  | notANumber => cases hu
  | infinity s => exact isNaN_unpack_packComponents fun _ => rfl
  | zero s => exact isNaN_unpack_packComponents fun _ => rfl
  | finite s m e hm =>
    simp only
    split
    · exact isNaN_unpack_packComponents fun _ => rfl
    · next hexponent =>
      split
      · refine isNaN_unpack_packComponents fun heq => ?_
        have hvalue := (congrArg BitVec.toNat heq).trans (show _ = 2 ^ 11 - 1 from rfl)
        rw [BitVec.toNat_ofNat, Nat.mod_eq_of_lt (by omega)] at hvalue
        exfalso
        omega
      · exact isNaN_unpack_packComponents fun heq => absurd heq (by decide)

/-! ## Whole numbers -/

theorem isNaN_ofModel_pack (hu : u.isNaN = false) : (Float.ofModel (.pack u)).isNaN = false :=
  isNaN_unpack_pack hu

theorem isNaN_natCast (n : Nat) : (Float.ofNat n).isNaN = false := by
  show (Float.ofScientific n false 0).isNaN = false
  unfold Float.ofScientific
  split
  · -- The number is rounded, and then multiplied by the power of ten that is one.
    have hone : ∃ s m e h, Float.exactlyRepresentablePowersOfTen[0].toModel.unpack =
        .finite s m e h := ⟨_, _, _, _, rfl⟩
    obtain ⟨s, m, e, h, hone⟩ := hone
    have hwhole : n.toUInt64.toFloat.isNaN = false := isNaN_ofModel_pack (isNaN_ofNat _ _)
    refine isNaN_ofModel_pack ?_
    rw [hone]
    exact isNaN_mul_finite hwhole
  · exact isNaN_ofModel_pack (isNaN_ofScientific n (Int.le_refl 0))

/-- The double nearest to a whole number is no NaN. -/
theorem isNaN_ofInt (i : Int) : (Float.ofInt i).isNaN = false := by
  cases i with
  | ofNat n => exact isNaN_natCast n
  | negSucc n => exact isNaN_ofModel_pack (isNaN_neg (isNaN_natCast (n + 1)))

end Placement.Decimal
