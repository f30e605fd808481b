import Placement.Proofs.Constraint.Loose
import Placement.Proofs.Decimal.Extremes
import Placement.Proofs.Decimal.Printed
import Placement.Proofs.Decimal.Whole
import Placement.Proofs.Json.Written

/-!
# Loose equality falls into classes

Loose equality chooses for each pair of values whether it compares numbers or texts. The choice is
one of each value by itself: what reads as a number has a text that spells one, so it shares its
text with nothing that does not read as a number. The values that read as numbers are compared as
numbers among themselves, all others by their texts, and the only value that is not even equal to
itself is a NaN.
-/

namespace Placement

theorem Number.isSome_ofText_text (n : Number) : (Decimal.ofText n.text).isSome = true := by
  cases n with
  | int i => exact Decimal.isSome_ofText_wholeText i
  | real x => exact Decimal.Layout.data.isSome_ofText_render x

namespace Json

variable {a b c v : Json} {t : String} {x : Float}

/-! ## Numbers and texts -/

/-- A value reads as a number exactly where its text spells one. -/
theorem isSome_number?_of_text? (h : v.text? = some t) :
    v.number?.isSome = (Decimal.ofText t).isSome := by
  cases v with
  | bool b =>
    cases h
    cases b with
    | true => decide +kernel
    | false => decide +kernel
  | number n =>
    cases h
    exact n.isSome_ofText_text.symm
  | string s =>
    cases h
    rfl
  | _ => cases h

/-- Values of one text read as numbers together or not at all. -/
theorem isSome_number?_congr (h : a.text? = b.text?) : a.number?.isSome = b.number?.isSome := by
  cases ha : a.text? with
  | none => rw [(textless_of_text?_eq_none ha).1, (textless_of_text?_eq_none (h ▸ ha)).1]
  | some t => rw [isSome_number?_of_text? ha, isSome_number?_of_text? (h ▸ ha)]

/-- Two values are loosely equal if both read as numbers, and these are equal, or if neither does,
and they have the same text or none. -/
theorem looseEq_iff_readings : a.looseEq b = true ↔
    (∃ x y, a.number? = some x ∧ b.number? = some y ∧ (x == y) = true) ∨
      a.number? = none ∧ b.number? = none ∧ a.text? = b.text? := by
  have hcongr := isSome_number?_congr (a := a) (b := b)
  unfold looseEq
  cases ha : a.number? with
  | none =>
    cases hb : b.number? with
    | none => simp
    | some y =>
      rw [ha, hb] at hcongr
      simpa using hcongr
  | some x =>
    cases hb : b.number? with
    | none =>
      rw [ha, hb] at hcongr
      simpa using hcongr
    | some y => simp

/-! ## Equality in each class -/

theorem looseEq_symm (h : a.looseEq b = true) : b.looseEq a = true := by
  rw [looseEq_iff_readings] at *
  rcases h with ⟨x, y, ha, hb, hxy⟩ | ⟨ha, hb, htext⟩
  · exact .inl ⟨y, x, hb, ha, Decimal.beq_symm hxy⟩
  · exact .inr ⟨hb, ha, htext.symm⟩

theorem looseEq_trans (hab : a.looseEq b = true) (hbc : b.looseEq c = true) :
    a.looseEq c = true := by
  rw [looseEq_iff_readings] at *
  rcases hab with ⟨x, y, ha, hb, hxy⟩ | ⟨ha, hb, htext⟩
  · rcases hbc with ⟨y', z, hb', hc, hyz⟩ | ⟨hb', -, -⟩
    · cases hb.symm.trans hb'
      exact .inl ⟨x, z, ha, hc, Decimal.beq_trans hxy hyz⟩
    · cases hb.symm.trans hb'
  · rcases hbc with ⟨y', z, hb', -, -⟩ | ⟨-, hc, htext'⟩
    · cases hb.symm.trans hb'
    · exact .inr ⟨ha, hc, htext.trans htext'⟩

theorem looseEq_self_iff : v.looseEq v = true ↔ ∀ x, v.number? = some x → x.isNaN = false := by
  rw [looseEq_iff_readings]
  constructor
  · rintro (⟨x, y, hx, hy, hxy⟩ | ⟨hnone, -, -⟩) z hz
    · cases hx.symm.trans hy
      cases hx.symm.trans hz
      exact Decimal.beq_self_iff.1 hxy
    · cases hnone.symm.trans hz
  · intro h
    cases hv : v.number? with
    | none => exact .inr ⟨rfl, rfl, rfl⟩
    | some x => exact .inl ⟨x, x, rfl, rfl, Decimal.beq_self_iff.2 (h x hv)⟩

/-- Of what can be written, only a text reads as a NaN. -/
theorem Writable.exists_string (h : v.Writable) (hv : v.number? = some x) (hx : x.isNaN = true) :
    ∃ s, v = .string s := by
  cases h with
  | int i =>
    cases hv
    cases (Decimal.isNaN_ofInt i).symm.trans hx
  | real hfinite =>
    cases hv
    cases (Decimal.isNaN_of_isFinite hfinite).symm.trans hx
  | string s => exact ⟨s, rfl⟩
  | _ => cases hv

/-- Equality as a comparator is loose equality. It is symmetric and transitive, and every value is
equal to itself but a NaN. Of the values that can be written, and so of all that are read from a
text, only texts are NaNs. No value that reads as a number is equal to one that does not. Those that
do are equal if their numbers are, and those that do not if they have the same text, or none. -/
theorem looseEq_classes :
    (∀ a b : Json, Comparator.eq.holdsValue a b = a.looseEq b) ∧
    (∀ a b : Json, a.looseEq b = b.looseEq a) ∧
    (∀ a b c : Json, a.looseEq b = true → b.looseEq c = true → a.looseEq c = true) ∧
    (∀ v : Json, v.looseEq v = true ↔ ∀ x, v.number? = some x → x.isNaN = false) ∧
    (∀ v : Json, v.Writable →
      (v.looseEq v = true ↔ ¬∃ s x, v = .string s ∧ Decimal.ofText s = some x ∧ x.isNaN = true)) ∧
    (∀ (text : String) (v : Json), Json.ofText text = .ok v → v.Writable) ∧
    (∀ a b : Json, a.looseEq b = true → a.number?.isSome = b.number?.isSome) ∧
    (∀ (a b : Json) (x y : Float), a.number? = some x → b.number? = some y →
      (a.looseEq b = true ↔ (x == y) = true)) ∧
    ∀ a b : Json, a.number? = none → b.number? = none →
      (a.looseEq b = true ↔ a.text? = b.text?) := by
  refine ⟨Comparator.holdsValue_eq, fun a b => ?_, fun a b c => looseEq_trans,
    fun v => looseEq_self_iff, fun v hv => ?_, fun text v => writable_of_ofText, fun a b h => ?_,
    fun a b x y ha hb => ?_, fun a b ha hb => ?_⟩
  · rw [Bool.eq_iff_iff]
    exact ⟨looseEq_symm, looseEq_symm⟩
  · rw [looseEq_self_iff]
    constructor
    · rintro h ⟨s, x, rfl, hs, hx⟩
      rw [h x hs] at hx
      cases hx
    · intro h x hx
      rw [← Bool.not_eq_true]
      intro hnan
      obtain ⟨s, rfl⟩ := hv.exists_string hx hnan
      exact h ⟨s, x, rfl, hx, hnan⟩
  · rcases looseEq_iff_readings.1 h with ⟨x, y, ha, hb, -⟩ | ⟨ha, hb, -⟩
    · rw [ha, hb]
      rfl
    · rw [ha, hb]
  · unfold looseEq
    rw [ha, hb]
  · unfold looseEq
    rw [ha, hb]
    exact beq_iff_eq

/-- Eight in four spellings. -/
def eights : List Json := [.int 8, .real 8.0, .string "8", .string " 8.00 "]

theorem looseEq_classes_eights :
    (∀ a ∈ eights, ∀ b ∈ eights, a.looseEq b = true ∧ Comparator.eq.holdsValue a b = true) ∧
    (∀ a ∈ eights, ∀ b ∈ [Json.string "eight", .bool true, .null], a.looseEq b = false) ∧
      (Json.string "NaN").looseEq (.string "NaN") = false := by
  obtain ⟨hholds, hsymm, htrans, -, hself, -, hmixed, -⟩ := looseEq_classes
  have height : ∀ a ∈ eights, a.looseEq (.int 8) = true := by
    unfold eights
    simp only [List.forall_mem_cons]
    exact ⟨by decide +kernel, by decide +kernel, by decide +kernel, by decide +kernel,
      List.forall_mem_nil _⟩
  have hothers : ∀ b ∈ [Json.string "eight", .bool true, .null], b.number?.isSome = false := by
    decide +kernel
  refine ⟨fun a ha b hb => ?_, fun a ha b hb => ?_, ?_⟩
  · have hab := htrans a (.int 8) b (height a ha) ((hsymm _ _).trans (height b hb))
    exact ⟨hab, (hholds a b).trans hab⟩
  · rw [← Bool.not_eq_true]
    intro hab
    have hread := hmixed b (.int 8) (htrans b a (.int 8) ((hsymm _ _).trans hab) (height a ha))
    rw [hothers b hb] at hread
    cases hread
  · rw [← Bool.not_eq_true, hself (.string "NaN") (.string "NaN"), not_not]
    exact ⟨"NaN", Decimal.notANumber, rfl, rfl, by decide +kernel⟩

end Json

end Placement
