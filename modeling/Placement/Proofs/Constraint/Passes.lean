import Placement.Proofs.Constraint.Verdict

/-!
# What a constraint asks of a candidate

`c.Passes p demand x` says, in terms of the record `x` and of the commitments on the path `p`, what
the constraint asks of a candidate for a demand. It is what `admits` tests, so it can be decided.
Constraints on hardware and capacity ask nothing of a single candidate.
-/

namespace Placement

variable {c : Constraint} {p q : Path} {d demand : String} {x y : Candidate}

/-! ## Tests on one record -/

/-- The value is loosely the expected one, or one of those expected. -/
def Recorded.Meets (expected v : Json) : Prop :=
  match expected with
  | .array options => ∃ o ∈ options, v.looseEq o = true
  | expected => v.looseEq expected = true

theorem Recorded.meets_iff {expected v : Json} : Recorded.meets expected v = true ↔
    Recorded.Meets expected v := by
  cases expected with
  | array options => exact List.any_eq_true
  | null => exact Iff.rfl
  | bool b => exact Iff.rfl
  | number n => exact Iff.rfl
  | string s => exact Iff.rfl
  | object fields => exact Iff.rfl

theorem Recorded.hasAttributes_iff {evaluate : Table Json} :
    Recorded.hasAttributes evaluate x = true ↔
    ∀ key expected, (key, expected) ∈ evaluate →
      ∃ v, x.attribute? key = some v ∧ Recorded.Meets expected v := by
  unfold Recorded.hasAttributes
  rw [List.all_eq_true]
  constructor
  · intro h key expected he
    have hmeets := h (key, expected) he
    simp only at hmeets
    cases hv : x.attribute? key with
    | none => rw [hv] at hmeets; cases hmeets
    | some v =>
      rw [hv] at hmeets
      exact ⟨v, rfl, Recorded.meets_iff.1 hmeets⟩
  · rintro h ⟨key, expected⟩ he
    obtain ⟨v, hv, hmeets⟩ := h key expected he
    simp only [hv]
    exact Recorded.meets_iff.2 hmeets

theorem Candidate.meetsThreshold_iff {key : String} {operator : Comparator} {bound : Float} :
    x.meetsThreshold key operator bound = true ↔
      ∃ v, x.number? key = some v ∧ operator.holds v bound = true := by
  unfold Candidate.meetsThreshold
  cases x.number? key with
  | none => simp
  | some v => simp

theorem Recorded.isServedBy_iff {controller : String} : Recorded.isServedBy controller x = true ↔
    ∃ controllers, Table.get? x.attributes "service_controllers" = some (.array controllers) ∧
      .string controller ∈ controllers := by
  unfold Recorded.isServedBy
  constructor
  · intro h
    split at h
    · next controllers hcontrollers =>
      obtain ⟨v, hv, hcontroller⟩ := List.any_eq_true.1 h
      refine ⟨controllers, hcontrollers, ?_⟩
      unfold Recorded.isController at hcontroller
      split at hcontroller
      · rwa [← eq_of_beq hcontroller]
      · cases hcontroller
    · cases h
  · rintro ⟨controllers, hcontrollers, hmem⟩
    simp only [hcontrollers]
    exact List.any_eq_true.2 ⟨_, hmem, beq_self_eq_true controller⟩

/-! ## Tests beside other records -/

theorem Candidate.fitsZones_iff {q : Qualifier} {category : String} {siblings : List Candidate} :
    x.fitsZones q category siblings = true ↔
      ∃ zone, x.text? category = some zone ∧
        ∀ y ∈ siblings, q.fits zone (y.text? category) = true := by
  unfold Candidate.fitsZones
  cases x.text? category with
  | none => simp
  | some zone => simp

theorem Constraint.isNear_iff {r : DistanceRule} {siblings : List (String × Candidate)} :
    Constraint.isNear r siblings x = true ↔ ∃ l, Recorded.location? x = some l ∧
      ∀ s ∈ siblings, ∃ m, Recorded.location? s.2 = some m ∧
        r.operator.holds (r.unit.distance l m) r.value = true := by
  unfold Constraint.isNear
  cases Recorded.location? x with
  | none => simp
  | some l =>
    simp only [Option.some.injEq, exists_eq_left', List.all_eq_true]
    refine forall₂_congr fun s _ => ?_
    cases Recorded.location? s.2 with
    | none => simp
    | some m => simp

/-! ## Beside the commitments -/

namespace Constraint

/-- Another demand in scope is committed to this candidate. -/
def Sibling (c : Constraint) (p : Path) (demand : String) (y : Candidate) : Prop :=
  ∃ e ∈ c.demands, e ≠ demand ∧ p.decided e = some y

/-- The demand is the only entry of the scope that is not decided yet. -/
def Completes (c : Constraint) (p : Path) (demand : String) : Prop :=
  c.demands.count demand = 1 ∧ p.isDecided demand = false ∧
  ∀ e ∈ c.demands, e ≠ demand → p.isDecided e = true

theorem undecided_eq_singleton :
    (c.demands.filter fun e => !p.isDecided e) = [demand] ↔ c.Completes p demand := by
  constructor
  · intro h
    have hmem : ∀ e, e ∈ c.demands ∧ p.isDecided e = false ↔ e = demand := fun e => by
      rw [← List.mem_singleton (b := demand), ← h, List.mem_filter, Bool.not_eq_true']
    have hopen := ((hmem demand).2 rfl).2
    refine ⟨?_, hopen, fun e he hne => ?_⟩
    · rw [← List.count_filter (p := fun e => !p.isDecided e) (by simp [hopen]), h,
        List.count_singleton_self]
    · rw [← Bool.not_eq_false]
      exact fun hopen => hne ((hmem e).1 ⟨he, hopen⟩)
  · rintro ⟨hcount, hopen, hothers⟩
    have hdecided : ∀ e ∈ c.demands, (!p.isDecided e) = (e == demand) := by
      intro e he
      by_cases hne : e = demand
      · rw [hne, hopen, beq_self_eq_true]
        rfl
      · rw [hothers e he hne, beq_false_of_ne hne]
        rfl
    rw [List.filter_congr hdecided, List.filter_beq, hcount]
    rfl

theorem exists_mem_decidedSiblings (hcurrent : p.current = some demand) :
    (∃ e, (e, y) ∈ c.decidedSiblings p) ↔ c.Sibling p demand y := by
  refine exists_congr fun e => ?_
  rw [mem_decidedSiblings, hcurrent, Ne, Option.some.injEq]

theorem forall_mem_decidedSiblings (hcurrent : p.current = some demand) (P : Candidate → Prop) :
    (∀ s ∈ c.decidedSiblings p, P s.2) ↔ ∀ y, c.Sibling p demand y → P y := by
  constructor
  · intro h y hy
    obtain ⟨e, he⟩ := (exists_mem_decidedSiblings hcurrent).2 hy
    exact h (e, y) he
  · rintro h ⟨e, y⟩ he
    exact h y ((exists_mem_decidedSiblings hcurrent).1 ⟨e, he⟩)

/-- A test that waits for siblings is a test of candidates that have one. -/
theorem isEmpty_or_iff (hcurrent : p.current = some demand) {b : Bool} :
    ((c.decidedSiblings p).isEmpty || b) = true ↔ ((∃ y, c.Sibling p demand y) → b = true) := by
  have hsome : (c.decidedSiblings p).isEmpty = false ↔ ∃ y, c.Sibling p demand y := by
    rw [List.isEmpty_eq_false_iff_exists_mem, Prod.exists, exists_comm]
    exact exists_congr fun y => exists_mem_decidedSiblings hcurrent
  rw [← hsome]
  cases (c.decidedSiblings p).isEmpty with
  | true => simp
  | false => simp

theorem lastToResolve_eq_some (hcurrent : p.current = some demand) {current : String} :
    c.lastToResolve p = some current ↔ current = demand ∧ c.Completes p demand := by
  rw [← undecided_eq_singleton]
  unfold lastToResolve
  rw [hcurrent]
  by_cases h : (c.demands.filter fun e => !p.isDecided e) = [demand]
  · simp [h, eq_comm]
  · simp [h]

/-- What the constraint asks of a candidate for a demand, beside the commitments on a path. -/
def Passes (c : Constraint) (p : Path) (demand : String) (x : Candidate) : Prop :=
  match c.rule with
  | .attributes evaluate =>
    ∀ key expected, (key, expected) ∈ evaluate → ∃ v, x.attribute? key = some v ∧
      Recorded.Meets expected v
  | .threshold key operator bound => ∃ v, x.number? key = some v ∧ operator.holds v bound = true
  | .distance r =>
    (∃ y, c.Sibling p demand y) → ∃ l, Recorded.location? x = some l ∧ ∀ y, c.Sibling p demand y →
      ∃ m, Recorded.location? y = some m ∧ r.operator.holds (r.unit.distance l m) r.value = true
  | .aggregation rules =>
    c.Completes p demand → ∀ r ∈ rules, r.accepts (c.members p demand x) = true
  | .hpa _ => True
  | .vimFit _ => True
  | .service controller inventoryType _ _ => x.inventoryType = inventoryType → ∃ controllers,
      Table.get? x.attributes "service_controllers" = some (.array controllers) ∧
      .string controller ∈ controllers
  | .zone q category => (∃ y, c.Sibling p demand y) → ∃ zone, x.text? category = some zone ∧
      ∀ y, c.Sibling p demand y → q.fits zone (y.text? category) = true

theorem admits_iff_passes (hcurrent : p.current = some demand) :
    c.admits p x = true ↔ c.Passes p demand x := by
  unfold admits Passes
  cases c.rule with
  | attributes evaluate => exact Recorded.hasAttributes_iff
  | threshold key operator bound => exact Candidate.meetsThreshold_iff
  | distance r =>
    refine (isEmpty_or_iff hcurrent).trans (imp_congr_right fun _ => isNear_iff.trans ?_)
    exact exists_congr fun l =>
      and_congr_right fun _ => forall_mem_decidedSiblings hcurrent fun y =>
      ∃ m, Recorded.location? y = some m ∧ r.operator.holds (r.unit.distance l m) r.value = true
  | aggregation rules =>
    cases hlast : c.lastToResolve p with
    | none =>
      have hopen : ¬ c.Completes p demand := fun h => by
        rw [(lastToResolve_eq_some hcurrent).2 ⟨rfl, h⟩] at hlast
        cases hlast
      simp [hopen]
    | some current =>
      obtain ⟨rfl, hcompletes⟩ := (lastToResolve_eq_some hcurrent).1 hlast
      simp [hcompletes]
  | hpa requirements => simp
  | vimFit request => simp
  | service controller inventoryType request cost =>
    simp only
    rw [← Recorded.isServedBy_iff, Bool.or_eq_true, bne_iff_ne, ne_eq, Decidable.imp_iff_not_or]
  | zone qualifier category =>
    refine (isEmpty_or_iff hcurrent).trans
      (imp_congr_right fun _ => Candidate.fitsZones_iff.trans ?_)
    refine exists_congr fun zone => and_congr_right fun _ => List.forall_mem_map.trans ?_
    exact forall_mem_decidedSiblings hcurrent fun y => qualifier.fits zone (y.text? category) = true

end Constraint

end Placement
