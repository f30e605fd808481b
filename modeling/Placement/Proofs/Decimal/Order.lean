import Mathlib
import Placement.Decimal.Numeral

/-!
# The order of doubles

Off NaN the comparison of doubles is that of a rank in a linear order, and a NaN is less than
nothing and greater than nothing. So `<` is a strict order in which the doubles that are no NaN fall
into ranks.
-/

namespace Placement.Decimal

open Float.Model

/-- The place of an unpacked double among the others; zeros of either sign share one, and a NaN has
none of its own. -/
def rank : UnpackedFloat → Int ×ₗ Int ×ₗ Int
  | .infinity .negative => toLex (-2, toLex (0, 0))
  | .finite .negative m e _ => toLex (-1, toLex (-e, -m))
  | .notANumber => toLex (0, toLex (0, 0))
  | .zero _ => toLex (0, toLex (0, 0))
  | .finite .positive m e _ => toLex (1, toLex (e, m))
  | .infinity .positive => toLex (2, toLex (0, 0))

theorem unpacked_lt_iff (a b : UnpackedFloat) :
    a.lt b = true ↔ a.isNaN = false ∧ b.isNaN = false ∧ rank a < rank b := by
  unfold UnpackedFloat.lt
  cases a with
  | notANumber => simp [UnpackedFloat.compare, UnpackedFloat.isNaN]
  | infinity s =>
    cases s <;> rcases b with (_ | _) | _ | _ | ⟨_ | _, _, _, _⟩ <;>
      simp [UnpackedFloat.compare, UnpackedFloat.isNaN, rank, Prod.Lex.lt_iff]
    decide
  | zero s =>
    rcases b with (_ | _) | _ | _ | ⟨_ | _, _, _, _⟩ <;>
      simp [UnpackedFloat.compare, UnpackedFloat.isNaN, rank, Prod.Lex.lt_iff]
  | finite s m e h =>
    cases s <;> rcases b with (_ | _) | _ | _ | ⟨_ | _, _, _, _⟩ <;>
      simp [UnpackedFloat.compare, UnpackedFloat.isNaN, rank, Prod.Lex.lt_iff, Ordering.then_eq_lt,
        Ordering.then_eq_gt, compare_lt_iff_lt, compare_gt_iff_gt]

theorem unpacked_beq_iff (a b : UnpackedFloat) :
    a.beq b = true ↔ a.isNaN = false ∧ b.isNaN = false ∧ rank a = rank b := by
  unfold UnpackedFloat.beq
  cases a with
  | notANumber => simp [UnpackedFloat.compare, UnpackedFloat.isNaN]
  | infinity s =>
    cases s <;> rcases b with (_ | _) | _ | _ | ⟨_ | _, _, _, _⟩ <;>
      simp [UnpackedFloat.compare, UnpackedFloat.isNaN, rank]
    · decide
    · decide
  | zero s =>
    rcases b with (_ | _) | _ | _ | ⟨_ | _, _, _, _⟩ <;>
      simp [UnpackedFloat.compare, UnpackedFloat.isNaN, rank]
  | finite s m e h =>
    cases s <;> rcases b with (_ | _) | _ | _ | ⟨_ | _, _, _, _⟩ <;>
      simp [UnpackedFloat.compare, UnpackedFloat.isNaN, rank, Ordering.then_eq_eq]

/-- The rank of a double. -/
def rankOf (x : Float) : Int ×ₗ Int ×ₗ Int := rank x.toModel.unpack

theorem lt_iff_rank (x y : Float) :
    x < y ↔ x.isNaN = false ∧ y.isNaN = false ∧ rankOf x < rankOf y := by
  have h : x < y ↔ x.toModel.unpack.lt y.toModel.unpack = true := decide_eq_true_iff
  rw [h]
  exact unpacked_lt_iff _ _

theorem beq_iff_rank (x y : Float) :
    (x == y) = true ↔ x.isNaN = false ∧ y.isNaN = false ∧ rankOf x = rankOf y :=
  unpacked_beq_iff _ _

theorem unpacked_le_iff (a b : UnpackedFloat) : a.le b = true ↔ a.lt b = true ∨ a.beq b = true := by
  unfold UnpackedFloat.le UnpackedFloat.lt UnpackedFloat.beq
  cases a.compare b with
  | none => simp
  | some o => cases o <;> simp

theorem le_iff_rank (x y : Float) :
    x ≤ y ↔ x.isNaN = false ∧ y.isNaN = false ∧ rankOf x ≤ rankOf y := by
  have h : x ≤ y ↔ x.toModel.unpack.le y.toModel.unpack = true := decide_eq_true_iff
  rw [h, unpacked_le_iff, unpacked_lt_iff, unpacked_beq_iff, ← and_or_left, ← and_or_left,
    ← le_iff_lt_or_eq]
  rfl

theorem not_lt_self (x : Float) : ¬ x < x := by
  rw [lt_iff_rank]
  exact fun h => lt_irrefl _ h.2.2

theorem lt_of_lt_of_lt {x y z : Float} (hxy : x < y) (hyz : y < z) : x < z := by
  rw [lt_iff_rank] at *
  exact ⟨hxy.1, hyz.2.1, hxy.2.2.trans hyz.2.2⟩

/-- What is not less than the bound that `x` stays under is greater than `x`, unless it is a NaN. -/
theorem lt_of_lt_of_not_lt {x y z : Float} (hxy : x < y) (hzy : ¬ z < y) (hz : z.isNaN = false) :
    x < z := by
  rw [lt_iff_rank] at *
  refine ⟨hxy.1, hz, lt_of_lt_of_le hxy.2.2 (not_lt.1 fun h => hzy ⟨hz, hxy.2.1, h⟩)⟩

/-- What does not exceed the bound that `x` exceeds is less than `x`, unless it is a NaN. -/
theorem lt_of_not_lt_of_lt {x y z : Float} (hyx : y < x) (hyz : ¬ y < z) (hz : z.isNaN = false) :
    z < x := by
  rw [lt_iff_rank] at *
  refine ⟨hz, hyx.2.1, lt_of_le_of_lt (not_lt.1 fun h => hyz ⟨hyx.1, hz, h⟩) hyx.2.2⟩

/-! ## Equality -/

theorem beq_self_iff {x : Float} : (x == x) = true ↔ x.isNaN = false := by
  rw [beq_iff_rank]
  exact ⟨And.left, fun h => ⟨h, h, rfl⟩⟩

theorem beq_symm {x y : Float} (h : (x == y) = true) : (y == x) = true := by
  rw [beq_iff_rank] at *
  exact ⟨h.2.1, h.1, h.2.2.symm⟩

theorem beq_trans {x y z : Float} (hxy : (x == y) = true) (hyz : (y == z) = true) :
    (x == z) = true := by
  rw [beq_iff_rank] at *
  exact ⟨hxy.1, hyz.2.1, hxy.2.2.trans hyz.2.2⟩

end Placement.Decimal
