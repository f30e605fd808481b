import Mathlib
import Placement.Proofs.Decimal.Extremes

/-!
# Whole numbers within the doubles

A double is finite as long as its exponent stays within the format. Rounding raises an exponent by
no more than twice the length of the significand, so the double nearest to a whole number of at most
64 bits is far below the infinities.
-/

namespace Placement.Decimal

open Float.Model

variable {u : UnpackedFloat} {b e : Int} {m k n : Nat} {s : UnpackedFloat.Sign}

/-- Zero, or finite with an exponent up to a bound. -/
inductive Within (b : Int) : UnpackedFloat → Prop
  | zero (s : UnpackedFloat.Sign) : Within b (.zero s)
  | finite {s : UnpackedFloat.Sign} {m : Nat} {e : Int} {hm : 0 < m} (he : e ≤ b) :
      Within b (.finite s m e hm)

theorem Within.isFinite (h : Within b u) : u.isFinite = true := by
  cases h with
  | zero _ => rfl
  | finite _ => rfl

theorem Within.neg (h : Within b u) : Within b u.neg := by
  cases h with
  | zero s => exact .zero _
  | finite he => exact .finite he

/-! ## Rounding -/

theorem mantissa_shiftRight_le (em : UnpackedFloat.ExtendedMantissa) (n : Nat) :
    (em >>> n).mantissa ≤ em.mantissa := by
  show (n.repeat UnpackedFloat.ExtendedMantissa.shiftRightOne em).mantissa ≤ em.mantissa
  induction n with
  | zero => exact Nat.le_refl _
  | succ n ih => exact (Nat.div_le_self _ 2).trans ih

theorem roundedMantissa_le (em : UnpackedFloat.ExtendedMantissa) :
    em.roundedMantissa ≤ em.mantissa + 1 := by
  unfold UnpackedFloat.ExtendedMantissa.roundedMantissa UnpackedFloat.Accuracy.roundToNearestEven
  have hparity : em.mantissa % 2 < 2 := Nat.mod_lt _ (by decide)
  split <;> omega

theorem mantissa_ofMantissaAndAccuracy (m : Nat) (a : UnpackedFloat.Accuracy) :
    (UnpackedFloat.ExtendedMantissa.ofMantissaAndAccuracy m a).mantissa = m := by
  unfold UnpackedFloat.ExtendedMantissa.ofMantissaAndAccuracy
  split <;> rfl

/-- Shifting to the exponent of the format loses digits of the significand and raises the exponent
by their number. -/
theorem shiftToTargetExponent_le (hm : m ≤ 2 ^ k) (e : Int) (a : UnpackedFloat.Accuracy) :
    (UnpackedFloat.shiftToTargetExponent .binary64 m e a).1.mantissa ≤ m ∧
      (UnpackedFloat.shiftToTargetExponent .binary64 m e a).2 ≤ max (e + k) (-1074) := by
  have hlog : m.log2 ≤ k := by
    by_cases hzero : m = 0
    · rw [hzero]
      exact Nat.zero_le k
    · exact Nat.le_of_lt_succ
        ((Nat.log2_lt hzero).2 (hm.trans_lt (Nat.pow_lt_pow_succ (by decide))))
  unfold UnpackedFloat.shiftToTargetExponent UnpackedFloat.shiftToExponent
  refine ⟨(mantissa_shiftRight_le _ _).trans (mantissa_ofMantissaAndAccuracy m a).le, ?_⟩
  have htarget : Format.binary64.targetExponent (totalExponent m e) =
      max ((m.log2 : Int) + 1 + e - 53) (-1074) := rfl
  simp only [htarget]
  omega

theorem within_roundWithAccuracy (s : UnpackedFloat.Sign) (a : UnpackedFloat.Accuracy)
    (hm : m < 2 ^ k) (he : e + 2 * k ≤ b) (hk : (k : Int) ≤ b) :
    Within b (UnpackedFloat.roundWithAccuracy .binary64 s m e a) := by
  obtain ⟨hmantissa, hfirst⟩ := shiftToTargetExponent_le hm.le e a
  have hrounded :=
    (roundedMantissa_le (UnpackedFloat.shiftToTargetExponent .binary64 m e a).1).trans
    ((Nat.add_le_add_right hmantissa 1).trans hm)
  obtain ⟨-, hsecond⟩ := shiftToTargetExponent_le hrounded
    (UnpackedFloat.shiftToTargetExponent .binary64 m e a).2 .exact
  unfold UnpackedFloat.roundWithAccuracy
  simp only
  split
  · exact .zero s
  · exact .finite (by omega)

/-! ## Packing -/

theorem within_unpack_packComponents {exponent : BitVec Format.binary64.exponentBits}
    {mantissa : BitVec Format.binary64.mantissaBitsWithoutImplicit}
    (hexponent : exponent.toNat < 2047) (hb : (exponent.toNat : Int) - 1075 ≤ b)
    (hleast : -1074 ≤ b) :
    Within b (UnpackedFloat.unpack .binary64
      (UnpackedFloat.packComponents .binary64 s exponent mantissa)) := by
  have hbias : Format.binary64.exponentBias = 1023 := by decide
  unfold UnpackedFloat.unpack
  simp only [UnpackedFloat.unpackMantissa_packComponents,
    UnpackedFloat.unpackExponent_packComponents, hbias]
  split
  · next hall =>
    have hvalue := (congrArg BitVec.toNat hall).trans (show _ = 2047 from rfl)
    omega
  · split
    · next hzero =>
      have hvalue := (congrArg BitVec.toNat hzero).trans (show _ = 0 from rfl)
      split
      · exact .zero _
      · exact .finite (by omega)
    · exact .finite (by omega)

/-- The greatest exponent is left to the infinities, and below that packing keeps the exponent. -/
theorem Within.unpack_pack (h : Within b u) (hleast : -1074 ≤ b) (hgreatest : b ≤ 971) :
    Within b (UnpackedFloat.unpack .binary64 (UnpackedFloat.pack .binary64 u)) := by
  have hbias : Format.binary64.exponentBias = 1023 := by decide
  unfold UnpackedFloat.pack
  cases h with
  | zero s =>
    exact within_unpack_packComponents (by decide) (by show (0 : Int) - 1075 ≤ b; omega) hleast
  | finite he =>
    have hbits : 2 ^ Format.binary64.exponentBits = 2048 := rfl
    simp only [hbias]
    split
    · omega
    · split
      · have hvalue : ∀ k < 2047, (BitVec.ofNat 11 k).toNat = k := fun k hk => by
          rw [BitVec.toNat_ofNat, Nat.mod_eq_of_lt (by omega)]
        refine within_unpack_packComponents ?_ ?_ hleast
        · rw [hvalue _ (by omega)]
          omega
        · rw [hvalue _ (by omega)]
          omega
      · exact within_unpack_packComponents (by decide) (by show (0 : Int) - 1075 ≤ b; omega) hleast

/-! ## Whole numbers -/

theorem within_ofNat (h : n < 2 ^ 64) : Within 300 (UnpackedFloat.ofNat .binary64 n) := by
  have hround : Within 300 (UnpackedFloat.round .binary64 .positive n 0) := by
    have htarget : Format.binary64.targetExponent (totalExponent n 0) =
        max ((n.log2 : Int) + 1 + 0 - 53) (-1074) := rfl
    unfold UnpackedFloat.round UnpackedFloat.decreaseExponent
    simp only [htarget]
    have hshift : (0 - max ((n.log2 : Int) + 1 + 0 - 53) (-1074)).toNat ≤ 52 := by omega
    refine within_roundWithAccuracy (k := 116) _ _ ?_ (by omega) (by decide)
    rw [Nat.shiftLeft_eq]
    calc n * 2 ^ _ ≤ n * 2 ^ 52 := Nat.mul_le_mul_left n (Nat.pow_le_pow_right (by decide) hshift)
      _ < 2 ^ 116 := by omega
  unfold UnpackedFloat.ofNat UnpackedFloat.ofInt UnpackedFloat.normalize
  split
  · next hneg => exact absurd (Int.compare_eq_lt.1 hneg) (by omega)
  · exact .zero _
  · exact hround

theorem within_mul {s' : UnpackedFloat.Sign} {m' : Nat} {e' : Int} {hm : 0 < m} {hm' : 0 < m'}
    (h : m * m' < 2 ^ k) (he : e + e' + 2 * k ≤ b) (hk : (k : Int) ≤ b) :
    Within b (UnpackedFloat.mul .binary64 (.finite s m e hm) (.finite s' m' e' hm')) :=
  within_roundWithAccuracy _ _ h he hk

theorem within_mul_one {x one : Float} {hpos : 0 < 2 ^ 52}
    (hone : one.toModel.unpack = .finite s (2 ^ 52) (-52) hpos) (h : Within 300 x.toModel.unpack) :
    Within 971 (UnpackedFloat.mul .binary64 x.toModel.unpack one.toModel.unpack) := by
  rw [hone]
  generalize hunpack : x.toModel.unpack = u at h
  cases h with
  | zero _ => exact .zero _
  | finite he =>
    obtain ⟨hm, -⟩ := unpack_bounds hunpack
    exact within_mul (k := 105) (by omega) (by omega) (by decide)

theorem within_ofScientific (h : n < 2 ^ 64) :
    Within 971 (UnpackedFloat.ofScientific .binary64 n 0) := by
  unfold UnpackedFloat.ofScientific
  split
  · exact .zero _
  · split
    · next hlarge => exact absurd hlarge (by decide)
    · split
      · exact .zero _
      · have hbits : Format.binary64.mantissaBits = 53 := rfl
        rw [if_pos (Int.le_refl 0)]
        refine within_mul (k := 117) ?_ (by rw [hbits]; decide) (by decide)
        rw [Nat.shiftLeft_eq, hbits, Int.toNat_zero, Nat.pow_zero, Nat.mul_one]
        omega

theorem within_ofModel_pack (h : Within b u) (hleast : -1074 ≤ b) (hgreatest : b ≤ 971) :
    Within b (Float.ofModel (.pack u)).toModel.unpack := h.unpack_pack hleast hgreatest

/-- The double nearest to a whole number of at most 64 bits. -/
theorem within_natCast (h : n < 2 ^ 64) : Within 971 (Float.ofNat n).toModel.unpack := by
  show Within 971 (Float.ofScientific n false 0).toModel.unpack
  unfold Float.ofScientific
  split
  · -- The number is rounded, and then multiplied by the power of ten that is one.
    have hone : ∃ hpos, Float.exactlyRepresentablePowersOfTen[0].toModel.unpack =
        .finite .positive (2 ^ 52) (-52) hpos :=
      ⟨_, rfl⟩
    obtain ⟨hpos, hone⟩ := hone
    have hwhole : Within 300 n.toUInt64.toFloat.toModel.unpack :=
      within_ofModel_pack (within_ofNat n.toUInt64.toNat_lt) (by decide) (by decide)
    exact within_ofModel_pack (within_mul_one hone hwhole) (by decide) (by decide)
  · exact within_ofModel_pack (within_ofScientific h) (by decide) (by decide)

/-- A whole number of at most 64 bits is nearest to a finite double. -/
theorem isFinite_ofInt {i : Int} (h : i.natAbs < 2 ^ 64) : (Float.ofInt i).isFinite = true := by
  cases i with
  | ofNat n => exact (within_natCast h).isFinite
  | negSucc n =>
    have hneg : Within 971
        (Float.ofModel (.pack (Float.ofNat (n + 1)).toModel.unpack.neg)).toModel.unpack :=
      within_ofModel_pack (within_natCast h).neg (by decide) (by decide)
    exact hneg.isFinite

end Placement.Decimal
