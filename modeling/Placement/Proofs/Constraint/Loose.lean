import Placement.Proofs.Constraint.Equipment
import Placement.Proofs.Constraint.Passes

/-!
# What loose equality lets through

Loose equality compares the numbers that two values spell, or else their texts. A null, an array and
an object have neither, so any two of them are loosely equal. This reaches the attributes that a
candidate must have, the options among which an attribute must be, and the attributes that a flavor
must have: where one of these is asked to equal a null, an object or an option that is an array,
every null, array and object will do.
-/

namespace Placement

open Solving Recorded

namespace Json

variable {a b v : Json}

/-! ## Values without a text -/

theorem textless_iff : v.Textless ↔
    v = .null ∨ (∃ items, v = .array items) ∨ ∃ fields, v = .object fields := by
  unfold Textless
  cases v with
  | null => simp [number?, text?]
  | bool b => simp [text?]
  | number n => simp [text?]
  | string s => simp [text?]
  | array items => simp [number?, text?]
  | object fields => simp [number?, text?]

/-- What has no text spells no number either. -/
theorem textless_of_text?_eq_none (h : v.text? = none) : v.Textless := by
  cases v with
  | bool b => cases h
  | number n => cases h
  | string s => cases h
  | _ => exact ⟨rfl, rfl⟩

/-! ## Loose equality -/

/-- Both spell numbers, and these are equal; or not both spell numbers, and they have the same text;
or neither has a text. -/
inductive Alike (a b : Json) : Prop
  | number {x y : Float} (ha : a.number? = some x) (hb : b.number? = some y) (h : (x == y) = true)
  | text {t : String} (hno : a.number? = none ∨ b.number? = none) (ha : a.text? = some t)
      (hb : b.text? = some t)
  | textless (ha : a.Textless) (hb : b.Textless)

/-- Both spell numbers, and these are equal; or they have the same text; or they are one and the
same value. -/
inductive SameValue (a b : Json) : Prop
  | number {x y : Float} (ha : a.number? = some x) (hb : b.number? = some y) (h : (x == y) = true)
  | text {t : String} (ha : a.text? = some t) (hb : b.text? = some t)
  | same (ha : a.Textless) (h : a = b)

theorem looseEq_iff : a.looseEq b = true ↔ a.Alike b := by
  unfold looseEq
  split
  · next x y ha hb =>
    refine ⟨.number ha hb, fun h => ?_⟩
    cases h with
    | number ha' hb' h =>
      cases ha.symm.trans ha'
      cases hb.symm.trans hb'
      exact h
    | text hno _ _ => simp [ha, hb] at hno
    | textless ha' _ => cases ha.symm.trans ha'.1
  · next hno =>
    have hnumber : a.number? = none ∨ b.number? = none := by
      rw [or_iff_not_imp_left]
      intro ha
      obtain ⟨x, hx⟩ := Option.ne_none_iff_exists'.1 ha
      exact Option.eq_none_iff_forall_ne_some.2 fun y hy => hno x y hx hy
    rw [beq_iff_eq]
    constructor
    · intro h
      cases ha : a.text? with
      | none => exact .textless (textless_of_text?_eq_none ha) (textless_of_text?_eq_none (h ▸ ha))
      | some t => exact .text hnumber ha (h ▸ ha)
    · intro h
      cases h with
      | number ha hb _ => exact absurd hb (hno _ _ ha)
      | text _ ha hb => rw [ha, hb]
      | textless ha hb => rw [ha.2, hb.2]

/-- Unequal values are taken for equal ones exactly where neither has a text. -/
theorem alike_not_sameValue : a.Alike b ∧ ¬ a.SameValue b ↔ a.Textless ∧ b.Textless ∧ a ≠ b := by
  constructor
  · rintro ⟨h, hsame⟩
    cases h with
    | number ha hb h => exact absurd (.number ha hb h) hsame
    | text _ ha hb => exact absurd (.text ha hb) hsame
    | textless ha hb => exact ⟨ha, hb, fun h => hsame (.same ha h)⟩
  · rintro ⟨ha, hb, hne⟩
    refine ⟨.textless ha hb, fun h => ?_⟩
    cases h with
    | number ha' _ _ => cases ha.1.symm.trans ha'
    | text ha' _ => cases ha.2.symm.trans ha'
    | same _ h => exact hne h

/-- What has no text is alike everything else that has none, and nothing but that. -/
theorem alike_of_textless (h : a.Textless ∨ b.Textless) : a.Alike b ↔ a.Textless ∧ b.Textless := by
  refine ⟨fun halike => ?_, fun ⟨ha, hb⟩ => .textless ha hb⟩
  cases halike with
  | number ha hb _ =>
    rcases h with h | h
    · cases h.1.symm.trans ha
    · cases h.1.symm.trans hb
  | text _ ha hb =>
    rcases h with h | h
    · cases h.2.symm.trans ha
    · cases h.2.symm.trans hb
  | textless ha hb => exact ⟨ha, hb⟩

/-- The value is alike the expected one, or alike one of those expected. -/
def AlikeSome (v expected : Json) : Prop :=
  match expected with
  | .array options => ∃ o ∈ options, v.Alike o
  | expected => v.Alike expected

end Json

theorem Comparator.holdsValue_eq (v t : Json) : eq.holdsValue v t = v.looseEq t := by
  unfold holdsValue Json.looseEq
  cases v.number? <;> cases t.number? <;> rfl

/-- A comparison of two values: of the numbers they spell, or loose equality. -/
theorem Comparator.holdsValue_iff {c : Comparator} {v t : Json} : c.holdsValue v t = true ↔
    (∃ x y, v.number? = some x ∧ t.number? = some y ∧ c.holds x y = true) ∨
    c = .eq ∧ v.Alike t := by
  rw [← Json.looseEq_iff]
  constructor
  · intro h
    by_cases hc : c = .eq
    · subst hc
      exact .inr ⟨rfl, (holdsValue_eq v t).symm.trans h⟩
    · unfold holdsValue at h
      split at h
      · next x y hv ht => exact .inl ⟨x, y, hv, ht, h⟩
      · rw [beq_false_of_ne hc] at h
        cases h
  · rintro (⟨x, y, hv, ht, h⟩ | ⟨rfl, h⟩)
    · unfold holdsValue
      rw [hv, ht]
      exact h
    · rw [holdsValue_eq, h]

namespace Recorded

theorem meets_iff_alikeSome {expected v : Json} :
    Recorded.Meets expected v ↔ v.AlikeSome expected := by
  cases expected with
  | array options => exact exists_congr fun o => and_congr_right fun _ => Json.looseEq_iff
  | _ => exact Json.looseEq_iff

theorem fits_iff {r : HpaRequirement} {flavor : Table Json} : Fits r flavor ↔
    ∀ q ∈ r.flavorProperties, q.isMandatory = true →
      (∀ want, q.architecture = some want →
        ∃ v, Table.get? flavor "architecture" = some v ∧ v.Alike (.string want)) ∧
      ∀ f ∈ q.attributes, ∃ v, Table.get? flavor f.key = some v ∧
        ((∃ x y, v.number? = some x ∧ f.value.number? = some y ∧ f.operator.holds x y = true) ∨
          f.operator = .eq ∧ v.Alike f.value) := by
  unfold Fits
  simp only [Json.looseEq_iff, Comparator.holdsValue_iff]

end Recorded

namespace Constraint

/-- Kept are the candidates with the id of one that has the attributes. -/
theorem outcome_keepAttributed_recorded (evaluate : Table Json) (p : Path) (pool : List Candidate) :
    ∃ out, (keepAttributed evaluate p pool).outcome Engine.recorded () = some (.ok out) ∧
      ∀ y, y ∈ out ↔ y ∈ pool ∧ ∃ x ∈ pool, x.id = y.id ∧ hasAttributes evaluate x = true := by
  refine ⟨pool.filter fun y => (pool.filter (hasAttributes evaluate)).any fun x => x.id == y.id,
    rfl, fun y => ?_⟩
  rw [List.mem_filter, List.any_eq_true]
  refine and_congr_right fun _ => exists_congr fun x => ?_
  rw [List.mem_filter, beq_iff_eq, and_assoc, and_congr_right_iff]
  exact fun _ => and_comm

/-- Two values are loosely equal exactly if they are alike, so what is taken for equal without being
the same value are unequal values of which neither has a text: nulls, arrays and objects, each of
them alike all others. Against the engine that answers from the records, a constraint on attributes
keeps the candidates whose attributes are alike what is expected of them, or alike one of the
options expected. A flavor fits a requirement if its attributes compare as numbers with the values
asked for or, to be equal to them, are alike; and a constraint on hardware keeps the candidates that
have flavors to fit as many of its requirements, from the first one on, as any candidate has. -/
theorem filter_by_likeness (c : Constraint) (p : Path) (pool : List Candidate) :
    (∀ v : Json, v.Textless ↔ v = .null ∨ (∃ items, v = .array items) ∨
      ∃ fields, v = .object fields) ∧
    (∀ a b : Json, (a.looseEq b = true ↔ a.Alike b) ∧
      (a.looseEq b = true ∧ ¬ a.SameValue b ↔ a.Textless ∧ b.Textless ∧ a ≠ b) ∧
      (a.Textless ∨ b.Textless → (a.Alike b ↔ a.Textless ∧ b.Textless))) ∧
    (∀ evaluate, ∃ out,
      ({ c with rule := .attributes evaluate }.filter p pool).outcome Engine.recorded () =
          some (.ok out) ∧
        ∀ y, y ∈ out ↔ y ∈ pool ∧ ∃ x ∈ pool, x.id = y.id ∧
          ∀ key expected, (key, expected) ∈ evaluate →
            ∃ v, x.attribute? key = some v ∧ v.AlikeSome expected) ∧
    (∀ r flavor, Fits r flavor ↔ ∀ q ∈ r.flavorProperties, q.isMandatory = true →
      (∀ want, q.architecture = some want →
        ∃ v, Table.get? flavor "architecture" = some v ∧ v.Alike (.string want)) ∧
      ∀ f ∈ q.attributes, ∃ v, Table.get? flavor f.key = some v ∧
        ((∃ x y, v.number? = some x ∧ f.value.number? = some y ∧ f.operator.holds x y = true) ∨
          f.operator = .eq ∧ v.Alike f.value)) ∧
    ∀ rs, ∃ k out, Furthest rs pool k ∧
      ({ c with rule := .hpa rs }.filter p pool).outcome Engine.recorded () = some (.ok out) ∧
      List.Forall₂ (Equipped (rs.take k)) (pool.filter fun x => SuitsAll (rs.take k) x) out := by
  refine ⟨fun v => Json.textless_iff, fun a b => ⟨Json.looseEq_iff, ?_, Json.alike_of_textless⟩,
    fun evaluate => ?_, fun r flavor => fits_iff, fun rs => ?_⟩
  · rw [Json.looseEq_iff]
    exact Json.alike_not_sameValue
  · obtain ⟨out, hout, hmem⟩ := outcome_keepAttributed_recorded evaluate p pool
    refine ⟨out, hout, fun y => (hmem y).trans ?_⟩
    simp only [hasAttributes_iff, meets_iff_alikeSome]
  · obtain ⟨k, out, hfurthest, hout, hequips, -⟩ := run_keepEquipped rs pool
    exact ⟨k, out, hfurthest, hout, hequips⟩

end Constraint

/-! ## Where a null is asked for -/

/-- A candidate with the same value for its tags and for the cores of its only flavor. -/
def Candidate.tagged (id : String) (v : Json) : Candidate :=
  ⟨id, "aai", "cloud", 1.0, [("flavors", .object [("small", .object [("cores", v)])]), ("tags", v)]⟩

/-- The number of cores is null. -/
def HpaRequirement.coreless : HpaRequirement :=
  ⟨"vm", "vnfc", [], [⟨"basic", none, none, [⟨"cores", .null, .eq⟩]⟩]⟩

/-- An array passes for the null that is asked for, as an attribute and in a flavor. -/
theorem Constraint.filter_takes_array_for_null :
    let pool : List Candidate := [.tagged "a1" (.array [.int 1]), .tagged "a2" .null]
    let untagged : Constraint := ⟨"untagged", ["a"], 4, .attributes [("tags", .null)]⟩
    let equipped : Constraint := ⟨"equipped", ["a"], 2, .hpa [.coreless]⟩
    Json.null.looseEq (.array [.int 1]) = true ∧ Json.null ≠ .array [.int 1] ∧
    (untagged.filter {} pool).outcome Engine.recorded () = some (.ok pool) ∧
    ∃ out, (equipped.filter {} pool).outcome Engine.recorded () = some (.ok out) ∧
      out.map Candidate.id = ["a1", "a2"] :=
  ⟨rfl, nofun, rfl, _, rfl, rfl⟩

end Placement
