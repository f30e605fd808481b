import Mathlib
import Placement.Proofs.Decimal.Order

/-!
# The ends of the order

A double is a NaN, finite or one of the infinities, which lie below and above all finite doubles.
Among the finite ones there is a largest: significand and exponent of a double are bounded, and it
has both at their bounds.
-/

namespace Placement.Decimal

open Float.Model

/-- The largest finite double. -/
def largest : Float := 1.7976931348623157e308

/-! ## Ranks -/

theorem lt_of_fst_lt {a b : Int ×ₗ Int ×ₗ Int} (h : (ofLex a).1 < (ofLex b).1) : a < b :=
  Prod.Lex.lt_iff.2 (.inl h)

/-- Off zero, unpacked doubles of one rank are the same. -/
theorem unpacked_eq_of_rank_eq {u v : UnpackedFloat} (h : rank u = rank v)
    (hu : (ofLex (rank u)).1 ≠ 0) : u = v := by
  cases u with
  | notANumber => exact absurd rfl hu
  | zero s => exact absurd rfl hu
  | infinity s =>
    cases s <;> rcases v with (_ | _) | _ | _ | ⟨_ | _, _, _, _⟩ <;> simp [rank] at h ⊢
  | finite s m e hm =>
    cases s <;> rcases v with (_ | _) | _ | _ | ⟨_ | _, _, _, _⟩ <;> simp [rank] at h ⊢
    · exact h.symm
    · exact h.symm

theorem eq_of_rankOf_eq {x y : Float} (h : rankOf x = rankOf y) (hx : (ofLex (rankOf x)).1 ≠ 0) :
    x = y := by
  have hunpack : x.toModel.unpack = y.toModel.unpack := unpacked_eq_of_rank_eq h hx
  have hbits := (UnpackedFloat.unpack_inj_of_valid x.toModel.valid y.toModel.valid).1 hunpack
  exact Float.toBits_inj.1 (UInt64.toBitVec_inj.1 hbits)

theorem rankOf_infinity : rankOf infinity = toLex (2, toLex (0, 0)) := by decide +kernel

theorem rankOf_neg_infinity : rankOf (-infinity) = toLex (-2, toLex (0, 0)) := by decide +kernel

theorem rankOf_largest : rankOf largest = toLex (1, toLex (971, 2 ^ 53 - 1)) := by decide +kernel

/-! ## Finite doubles -/

/-- The significand and the exponent of a double are bounded. -/
theorem unpack_bounds {b : BitVec Format.binary64.numBits} {s : UnpackedFloat.Sign} {m : Nat}
    {e : Int} {hm : 0 < m} (h : UnpackedFloat.unpack .binary64 b = .finite s m e hm) :
    m < 2 ^ 53 ∧ e ≤ 971 := by
  have hbias : Format.binary64.exponentBias = 1023 := by decide
  unfold UnpackedFloat.unpack at h
  simp only [hbias] at h
  split at h
  · split at h <;> cases h
  · next hexponent =>
    split at h
    · next hzero =>
      split at h
      · cases h
      · -- Subnormal: the least exponent, and no implicit bit.
        injection h with _ hmantissa he
        have hlt : (@UnpackedFloat.unpackMantissa .binary64 b).toNat < 2 ^ 52 := BitVec.isLt _
        have hleast : (@UnpackedFloat.unpackExponent .binary64 b).toNat = 0 :=
          congrArg BitVec.toNat hzero
        omega
    · -- Normal: the greatest exponent of all is that of the infinities and of NaN.
      injection h with _ hmantissa he
      have hlt : (1#1 ++ @UnpackedFloat.unpackMantissa .binary64 b).toNat < 2 ^ 53 := BitVec.isLt _
      have hbound : (@UnpackedFloat.unpackExponent .binary64 b).toNat < 2048 := BitVec.isLt _
      have hgreatest : (@UnpackedFloat.unpackExponent .binary64 b).toNat ≠ 2047 := fun heq =>
        hexponent (BitVec.eq_of_toNat_eq heq)
      omega

/-- No finite double exceeds the largest. -/
theorem rank_le_largest {x : Float} (h : x.isFinite = true) : rankOf x ≤ rankOf largest := by
  rw [rankOf_largest]
  have hfinite : x.toModel.unpack.isFinite = true := h
  unfold rankOf
  cases hunpack : x.toModel.unpack with
  | notANumber => rw [hunpack] at hfinite; cases hfinite
  | infinity s => rw [hunpack] at hfinite; cases hfinite
  | zero s => exact le_of_lt (lt_of_fst_lt (show (0 : Int) < 1 by decide))
  | finite s m e hm =>
    obtain ⟨hm', he⟩ := unpack_bounds hunpack
    cases s with
    | negative => exact le_of_lt (lt_of_fst_lt (show (-1 : Int) < 1 by decide))
    | positive =>
      simp only [rank, Prod.Lex.le_iff, ofLex_toLex, lt_self_iff_false, true_and, false_or]
      omega

theorem unpacked_finite {u : UnpackedFloat} (h : u.isFinite = true) :
    u.isNaN = false ∧ rank (.infinity .negative) < rank u ∧
    rank u < rank (.infinity .positive) := by
  cases u with
  | notANumber => cases h
  | infinity s => cases h
  | zero s =>
    exact ⟨rfl, lt_of_fst_lt (show (-2 : Int) < 0 by decide),
      lt_of_fst_lt (show (0 : Int) < 2 by decide)⟩
  | finite s m e hm =>
    cases s with
    | negative =>
      exact ⟨rfl, lt_of_fst_lt (show (-2 : Int) < -1 by decide),
        lt_of_fst_lt (show (-1 : Int) < 2 by decide)⟩
    | positive =>
      exact ⟨rfl, lt_of_fst_lt (show (-2 : Int) < 1 by decide),
        lt_of_fst_lt (show (1 : Int) < 2 by decide)⟩

/-- The infinities lie below and above every finite double. -/
theorem lt_infinities {x : Float} (h : x.isFinite = true) : -infinity < x ∧ x < infinity := by
  obtain ⟨hnan, hbelow, habove⟩ := unpacked_finite (u := x.toModel.unpack) h
  rw [lt_iff_rank, lt_iff_rank, rankOf_infinity, rankOf_neg_infinity]
  exact ⟨⟨by decide +kernel, hnan, hbelow⟩, hnan, by decide +kernel, habove⟩

/-- A double is a NaN, finite or one of the infinities. -/
theorem nan_or_finite_or_infinite (x : Float) :
    x.isNaN = true ∨ x.isFinite = true ∨ x = infinity ∨ x = -infinity := by
  cases hunpack : x.toModel.unpack with
  | notANumber => exact .inl (congrArg UnpackedFloat.isNaN hunpack)
  | zero s => exact .inr (.inl (congrArg UnpackedFloat.isFinite hunpack))
  | finite s m e hm => exact .inr (.inl (congrArg UnpackedFloat.isFinite hunpack))
  | infinity s =>
    have hrank : rankOf x = rank (.infinity s) := congrArg rank hunpack
    refine .inr (.inr ?_)
    cases s with
    | positive =>
      exact .inl (eq_of_rankOf_eq (hrank.trans rankOf_infinity.symm) (by rw [hrank]; decide))
    | negative =>
      exact .inr (eq_of_rankOf_eq (hrank.trans rankOf_neg_infinity.symm) (by rw [hrank]; decide))

/-! ## What lies under and over a bound -/

variable {x : Float}

theorem isNaN_of_lt {y : Float} (h : x < y) : x.isNaN = false ∧ y.isNaN = false := by
  rw [lt_iff_rank] at h
  exact ⟨h.1, h.2.1⟩

theorem isNaN_of_isFinite (h : x.isFinite = true) : x.isNaN = false :=
  (isNaN_of_lt (lt_infinities h).2).1

theorem neg_infinity_lt_iff : -infinity < x ↔ x.isFinite = true ∨ x = infinity := by
  constructor
  · intro h
    rcases nan_or_finite_or_infinite x with hnan | hfinite | rfl | rfl
    · rw [(isNaN_of_lt h).2] at hnan
      cases hnan
    · exact .inl hfinite
    · exact .inr rfl
    · exact absurd h (not_lt_self _)
  · rintro (h | rfl)
    · exact (lt_infinities h).1
    · decide +kernel

theorem lt_largest_iff : x < largest ↔ (x.isFinite = true ∧ x ≠ largest) ∨ x = -infinity := by
  constructor
  · intro h
    rcases nan_or_finite_or_infinite x with hnan | hfinite | rfl | rfl
    · rw [(isNaN_of_lt h).1] at hnan
      cases hnan
    · refine .inl ⟨hfinite, ?_⟩
      rintro rfl
      exact not_lt_self _ h
    · exact absurd h (by decide +kernel)
    · exact .inr rfl
  · rintro (⟨hfinite, hne⟩ | rfl)
    · rw [lt_iff_rank]
      refine ⟨isNaN_of_isFinite hfinite, by decide +kernel,
        lt_of_le_of_ne (rank_le_largest hfinite) ?_⟩
      intro hrank
      exact hne (eq_of_rankOf_eq hrank (by rw [hrank, rankOf_largest]; decide))
    · decide +kernel

end Placement.Decimal
