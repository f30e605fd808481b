import Mathlib
import Placement.Proofs.Folds

/-!
# What becomes of a NaN

Sums, and so averages, are NaN as soon as one of their terms is. The least and the greatest of some
doubles are those of the doubles that are no NaN, and one of the infinities if there are none of
these.
-/

namespace Placement

open Float.Model

namespace Decimal

variable {x y : Float}

theorem unpack_of_isNaN (h : x.isNaN = true) : x.toModel.unpack = .notANumber :=
  UnpackedFloat.isNaN_iff.1 h

theorem isNaN_ofModel_pack_notANumber : (Float.ofModel (.pack .notANumber)).isNaN = true := by
  decide +kernel

theorem isNaN_of_add (h : (x + y).isNaN = false) : x.isNaN = false ∧ y.isNaN = false := by
  have hadd :
      x + y = .ofModel (.pack (UnpackedFloat.add .binary64 x.toModel.unpack y.toModel.unpack)) :=
    rfl
  rw [hadd, ← Bool.not_eq_true] at h
  constructor
  · rw [← Bool.not_eq_true]
    intro hx
    rw [unpack_of_isNaN hx] at h
    exact h isNaN_ofModel_pack_notANumber
  · rw [← Bool.not_eq_true]
    intro hy
    rw [unpack_of_isNaN hy] at h
    refine h ?_
    cases x.toModel.unpack <;> exact isNaN_ofModel_pack_notANumber

theorem isNaN_of_div (h : (x / y).isNaN = false) : x.isNaN = false := by
  have hdiv :
      x / y = .ofModel (.pack (UnpackedFloat.div .binary64 x.toModel.unpack y.toModel.unpack)) :=
    rfl
  rw [hdiv, ← Bool.not_eq_true] at h
  rw [← Bool.not_eq_true]
  intro hx
  rw [unpack_of_isNaN hx] at h
  exact h isNaN_ofModel_pack_notANumber

end Decimal

namespace Folds

/-! ## Sums -/

theorem isNaN_of_foldl_add : ∀ {xs : List Float} {a : Float}, (xs.foldl (· + ·) a).isNaN = false →
    a.isNaN = false ∧ ∀ x ∈ xs, x.isNaN = false
  | [], _, h => ⟨h, List.forall_mem_nil _⟩
  | x :: xs, a, h => by
    rw [List.foldl_cons] at h
    obtain ⟨hadd, hxs⟩ := isNaN_of_foldl_add h
    obtain ⟨ha, hx⟩ := Decimal.isNaN_of_add hadd
    exact ⟨ha, List.forall_mem_cons.2 ⟨hx, hxs⟩⟩

theorem isNaN_of_sum {xs : List Float} (h : (sum xs).isNaN = false) : ∀ x ∈ xs, x.isNaN = false :=
  (isNaN_of_foldl_add h).2

theorem isNaN_of_average {xs : List Float} (h : (average xs).isNaN = false) :
    ∀ x ∈ xs, x.isNaN = false :=
  isNaN_of_sum (Decimal.isNaN_of_div h)

/-! ## Extremes -/

/-- The doubles that are no NaN. -/
def numbers (xs : List Float) : List Float := xs.filter fun x => !x.isNaN

/-- A fold that takes over what is better, and never a NaN, passes over the NaNs. -/
theorem foldl_numbers {r : Float → Float → Prop} [DecidableRel r] {op : Float → Float → Float}
    (hop : ∀ x y, x.isNaN = false → op x y = if r y x then y else x)
    (hnan : ∀ {x y}, r y x → y.isNaN = false) :
    ∀ (xs : List Float) {x : Float}, x.isNaN = false → (numbers xs).foldl op x = xs.foldl op x
  | [], _, _ => rfl
  | y :: ys, x, hx => by
    have hstep : (op x y).isNaN = false := by
      rw [hop x y hx]
      split
      · next hyx => exact hnan hyx
      · exact hx
    cases hy : y.isNaN with
    | false =>
      have hcons : numbers (y :: ys) = y :: numbers ys := List.filter_cons_of_pos (by rw [hy]; rfl)
      rw [hcons, List.foldl_cons, List.foldl_cons, foldl_numbers hop hnan ys hstep]
    | true =>
      have hcons : numbers (y :: ys) = numbers ys :=
        List.filter_cons_of_neg (by rw [hy]; exact Bool.false_ne_true)
      have hpassed : op x y = x := by
        rw [hop x y hx, if_neg]
        intro hyx
        rw [hnan hyx] at hy
        cases hy
      rw [hcons, List.foldl_cons, hpassed, foldl_numbers hop hnan ys hx]

theorem least_numbers (xs : List Float) : least (numbers xs) = least xs :=
  foldl_numbers (r := fun y x => y < x) (fun _ y hx => lesser_eq y hx)
    (fun h => ((Decimal.lt_iff_rank _ _).1 h).1) xs
    (by decide +kernel)

theorem greatest_numbers (xs : List Float) : greatest (numbers xs) = greatest xs :=
  foldl_numbers (r := fun y x => x < y) (fun _ y hx => greater_eq y hx)
    (fun h => ((Decimal.lt_iff_rank _ _).1 h).2.1) xs
    (by decide +kernel)

end Folds

end Placement
