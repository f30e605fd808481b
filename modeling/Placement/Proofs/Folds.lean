import Placement.Decimal.Numeral
import Placement.Proofs.Decimal.Order

/-!
# Lists without their repeats

Taking the repeats out of a list leaves the first element of every kind where it was, so what
searches a list or tests all of it does not see them. Nor does a fold that is done with an element
once it has taken it in, such as the least and the greatest of some doubles.
-/

namespace Placement

section

variable {α β γ : Type} [BEq α]

/-- Induction on a list that takes all repeats of the head out of the tail. -/
theorem eraseDups_induction {motive : List α → Prop} (nil : motive [])
    (cons : ∀ x xs, motive (xs.filter fun y => !y == x) → motive (x :: xs)) : ∀ xs, motive xs
  | [] => nil
  | x :: xs => cons x xs (eraseDups_induction nil cons (xs.filter fun y => !y == x))
termination_by xs => xs.length
decreasing_by exact Nat.lt_succ_of_le (List.length_filter_le _ _)

variable [LawfulBEq α]

theorem nodup_eraseDups (xs : List α) : xs.eraseDups.Nodup := by
  induction xs using eraseDups_induction with
  | nil => simp
  | cons x xs ih =>
    rw [List.eraseDups_cons, List.nodup_cons]
    exact ⟨by simp, ih⟩

/-- The first element of a kind is the first without the repeats as well. -/
theorem find?_eraseDups (q : α → Bool) (xs : List α) : xs.eraseDups.find? q = xs.find? q := by
  induction xs using eraseDups_induction with
  | nil => rfl
  | cons x xs ih =>
    rw [List.eraseDups_cons, List.find?_cons, List.find?_cons, ih, List.find?_filter]
    cases hx : q x with
    | true => rfl
    | false =>
      -- The repeats of the head are not of the kind sought, so taking them out changes nothing.
      refine List.find?_congr fun y _ => ?_
      by_cases hy : y = x
      · simp [hy, hx]
      · simp [hy]

/-- Repeats may be taken out before a selection or after it. -/
theorem eraseDups_filter (q : α → Bool) (xs : List α) :
    (xs.filter q).eraseDups = xs.eraseDups.filter q := by
  induction xs using eraseDups_induction with
  | nil => rfl
  | cons x xs ih =>
    rw [List.filter_comm] at ih
    rw [List.eraseDups_cons]
    cases hx : q x with
    | true =>
      rw [List.filter_cons_of_pos hx, List.filter_cons_of_pos hx, List.eraseDups_cons, ih]
    | false =>
      rw [List.filter_cons_of_neg (by simp [hx]), List.filter_cons_of_neg (by simp [hx]), ← ih]
      -- The repeats of the head are not selected either.
      refine congrArg List.eraseDups (List.filter_eq_self.2 fun y hy => ?_).symm
      have hne : y ≠ x := fun hyx => by
        rw [hyx] at hy
        rw [(List.mem_filter.1 hy).2] at hx
        cases hx
      simp [hne]

/-- What has no effect on a fold may be left out. -/
theorem foldl_filter_ne {op : γ → β → γ} (hkeep : ∀ a y z, op a y = a → op (op a z) y = op a z)
    (v : α → β) {x : α} :
    ∀ {xs : List α} {a : γ}, op a (v x) = a →
      ((xs.filter fun y => !y == x).map v).foldl op a = (xs.map v).foldl op a
  | [], a, _ => rfl
  | y :: ys, a, ha => by
    by_cases hy : y = x
    · subst hy
      rw [List.filter_cons_of_neg (by simp), foldl_filter_ne hkeep v ha, List.map_cons,
        List.foldl_cons, ha]
    · rw [List.filter_cons_of_pos (by simp [hy]), List.map_cons, List.map_cons, List.foldl_cons,
        List.foldl_cons, foldl_filter_ne hkeep v (hkeep _ _ _ ha)]

/-- A fold does not see repeats if what it has taken in has no effect from then on. -/
theorem foldl_eraseDups {op : γ → β → γ} (hself : ∀ a y, op (op a y) y = op a y)
    (hkeep : ∀ a y z, op a y = a → op (op a z) y = op a z) (v : α → β) (xs : List α) :
    ∀ a, (xs.eraseDups.map v).foldl op a = (xs.map v).foldl op a := by
  induction xs using eraseDups_induction with
  | nil => exact fun a => rfl
  | cons x xs ih =>
    intro a
    rw [List.eraseDups_cons, List.map_cons, List.map_cons, List.foldl_cons, List.foldl_cons, ih]
    exact foldl_filter_ne hkeep v (hself _ _)

end

/-- Lists in which the same element is the first of every kind. -/
def SameFirsts {α : Type} (xs ys : List α) : Prop := ∀ q : α → Bool, xs.find? q = ys.find? q

namespace SameFirsts

variable {α : Type} {xs ys : List α}

theorem all_eq (h : SameFirsts xs ys) (q : α → Bool) : xs.all q = ys.all q := by
  rw [List.all_eq_not_any_not, List.all_eq_not_any_not, ← List.isSome_find?, ← List.isSome_find?, h]

theorem symm (h : SameFirsts xs ys) : SameFirsts ys xs := fun q => (h q).symm

theorem eq_nil (h : SameFirsts [] ys) : ys = [] := by
  cases ys with
  | nil => rfl
  | cons y ys => cases h fun _ => true

end SameFirsts

/-! ## Extremes do not see repeats -/

section

variable {r : Float → Float → Prop} [DecidableRel r] (hirrefl : ∀ x, ¬ r x x)
  (htrans : ∀ {x y z}, r x y → r y z → r x z)
include hirrefl htrans

theorem foldl_best_eraseDups (v : String → Float) (ds : List String) (x : Float) :
    (ds.eraseDups.map v).foldl (fun x y => if r y x then y else x) x =
      (ds.map v).foldl (fun x y => if r y x then y else x) x := by
  refine foldl_eraseDups (fun a y => ?_) (fun a y z hy => ?_) v ds x
  · by_cases hya : r y a
    · simp only [if_pos hya, if_neg (hirrefl y)]
    · simp only [if_neg hya]
  · by_cases hza : r z a
    · -- What was passed over beside `a` is passed over beside `z`, which is better than `a`.
      simp only [if_pos hza]
      refine if_neg fun hyz => ?_
      have hya := htrans hyz hza
      rw [if_pos hya] at hy
      subst hy
      exact hirrefl _ hya
    · simp only [if_neg hza]
      exact hy

/-- A fold that takes over what is better, and never a NaN, does not see repeats. -/
theorem foldl_extreme_eraseDups {op : Float → Float → Float}
    (hop : ∀ x y, x.isNaN = false → op x y = if r y x then y else x)
    (hnan : ∀ {x y}, r y x → y.isNaN = false) (v : String → Float) (ds : List String) {x : Float}
    (hx : x.isNaN = false) :
    (ds.eraseDups.map v).foldl op x = (ds.map v).foldl op x := by
  have hfold : ∀ (xs : List Float) (x : Float), x.isNaN = false →
      xs.foldl op x = xs.foldl (fun x y => if r y x then y else x) x := by
    intro xs
    induction xs with
    | nil => exact fun _ _ => rfl
    | cons y ys ih =>
      intro x hx
      rw [List.foldl_cons, List.foldl_cons, hop x y hx]
      refine ih _ ?_
      split
      · next hyx => exact hnan hyx
      · exact hx
  rw [hfold _ x hx, hfold _ x hx]
  exact foldl_best_eraseDups hirrefl htrans v ds x

end

namespace Folds

theorem lesser_eq {x : Float} (y : Float) (hx : x.isNaN = false) :
    lesser x y = if y < x then y else x := by
  unfold lesser
  rw [hx, if_neg Bool.false_ne_true]
  split
  · next hy =>
    refine (if_neg fun h => ?_).symm
    rw [((Decimal.lt_iff_rank y x).1 h).1] at hy
    cases hy
  · rfl

theorem greater_eq {x : Float} (y : Float) (hx : x.isNaN = false) :
    greater x y = if x < y then y else x := by
  unfold greater
  rw [hx, if_neg Bool.false_ne_true]
  split
  · next hy =>
    refine (if_neg fun h => ?_).symm
    rw [((Decimal.lt_iff_rank x y).1 h).2.1] at hy
    cases hy
  · rfl

theorem least_eraseDups (v : String → Float) (ds : List String) :
    least (ds.eraseDups.map v) = least (ds.map v) :=
  foldl_extreme_eraseDups (r := fun y x => y < x) Decimal.not_lt_self Decimal.lt_of_lt_of_lt
    (fun _ y hx => lesser_eq y hx)
    (fun h => ((Decimal.lt_iff_rank _ _).1 h).1) v ds (by decide +kernel)

theorem greatest_eraseDups (v : String → Float) (ds : List String) :
    greatest (ds.eraseDups.map v) = greatest (ds.map v) :=
  foldl_extreme_eraseDups (r := fun y x => x < y) Decimal.not_lt_self
    (fun hxy hyz => Decimal.lt_of_lt_of_lt hyz hxy)
    (fun _ y hx => greater_eq y hx) (fun h => ((Decimal.lt_iff_rank _ _).1 h).2.1) v ds
    (by decide +kernel)

end Folds

end Placement
