import Placement.Proofs.Constraint.Repeats
import Placement.Proofs.Decimal.Extremes
import Placement.Proofs.Decimal.NotANumber

/-!
# Readings that are no numbers

A comparator holds of no NaN. A threshold compares what it reads, so it lets through no candidate
whose value is missing, is no number or is a NaN. An aggregation reads the value of every member and
refuses it if it is missing or no number, but it compares the aggregate only: a NaN among the
members shows in a sum, in an average and in the first value if it is that one, while the least and
the greatest pass over it.
-/

namespace Placement

open Solving

/-! ## Comparisons -/

/-- A NaN stands in no relation to anything. -/
theorem Comparator.isNaN_of_holds {c : Comparator} {v t : Float} (h : c.holds v t = true) :
    v.isNaN = false ∧ t.isNaN = false := by
  cases c with
  | gte =>
    obtain ⟨ht, hv, -⟩ := (Decimal.le_iff_rank t v).1 (of_decide_eq_true h)
    exact ⟨hv, ht⟩
  | lte =>
    obtain ⟨hv, ht, -⟩ := (Decimal.le_iff_rank v t).1 (of_decide_eq_true h)
    exact ⟨hv, ht⟩
  | gt => exact (Decimal.isNaN_of_lt (of_decide_eq_true h)).symm
  | lt => exact Decimal.isNaN_of_lt (of_decide_eq_true h)
  | eq =>
    obtain ⟨hv, ht, -⟩ := (Decimal.beq_iff_rank v t).1 h
    exact ⟨hv, ht⟩

theorem Candidate.exists_of_meetsThreshold {x : Candidate} {key : String} {operator : Comparator}
    {bound : Float} (h : x.meetsThreshold key operator bound = true) :
    ∃ v, x.number? key = some v ∧ v.isNaN = false := by
  obtain ⟨v, hv, hholds⟩ := meetsThreshold_iff.1 h
  exact ⟨v, hv, (Comparator.isNaN_of_holds hholds).1⟩

/-! ## Aggregates of numbers -/

namespace AggregationRule

variable {r : AggregationRule} {xs : List Float} {members : List Candidate}

/-- What a rule asks of the numbers of its members, NaNs among them. -/
def Fits (r : AggregationRule) (xs : List Float) : Prop :=
  match r.function with
  | .sum => (∀ v ∈ xs, v.isNaN = false) ∧ r.operator.holds (Folds.sum xs) r.threshold = true
  | .min => r.operator.holds (Folds.least (Folds.numbers xs)) r.threshold = true
  | .max => r.operator.holds (Folds.greatest (Folds.numbers xs)) r.threshold = true
  | .average => (∀ v ∈ xs, v.isNaN = false) ∧ r.operator.holds (Folds.average xs) r.threshold = true
  | .first => ∃ v ∈ xs.head?, v.isNaN = false ∧ r.operator.holds v r.threshold = true

/-- The aggregate shows a NaN that stands at this place among the members. -/
def Notices (r : AggregationRule) (i : Nat) : Prop :=
  r.function = .sum ∨ r.function = .average ∨ r.function = .first ∧ i = 0

theorem fits_iff (hxs : xs ≠ []) :
    (∃ v, r.function.apply xs = some v ∧ r.operator.holds v r.threshold = true) ↔ r.Fits xs := by
  obtain ⟨x, ys, rfl⟩ := List.exists_cons_of_ne_nil hxs
  unfold Fits Aggregate.apply
  cases r.function with
  | sum =>
    simp only [Option.some.injEq, exists_eq_left']
    exact ⟨fun h => ⟨Folds.isNaN_of_sum (Comparator.isNaN_of_holds h).1, h⟩, And.right⟩
  | min => simp only [Option.some.injEq, exists_eq_left', Folds.least_numbers]
  | max => simp only [Option.some.injEq, exists_eq_left', Folds.greatest_numbers]
  | average =>
    simp only [Option.some.injEq, exists_eq_left']
    exact ⟨fun h => ⟨Folds.isNaN_of_average (Comparator.isNaN_of_holds h).1, h⟩, And.right⟩
  | first =>
    simp only [Option.some.injEq, exists_eq_left', List.head?_cons, Option.mem_def]
    exact ⟨fun h => ⟨(Comparator.isNaN_of_holds h).1, h⟩, And.right⟩

theorem Fits.isNaN_of_notices (h : r.Fits xs) {i : Nat} (hi : r.Notices i) {v : Float}
    (hv : xs[i]? = some v) :
    v.isNaN = false := by
  unfold Fits at h
  rcases hi with hfunction | hfunction | ⟨hfunction, rfl⟩
  · rw [hfunction] at h
    exact h.1 v (List.mem_of_getElem? hv)
  · rw [hfunction] at h
    exact h.1 v (List.mem_of_getElem? hv)
  · rw [hfunction] at h
    obtain ⟨w, hw, hnan, -⟩ := h
    rw [List.head?_eq_getElem?, hv] at hw
    cases hw
    exact hnan

/-! ## Members -/

theorem numbersOf?_eq_some {key : String} : ∀ {members : List Candidate} {xs : List Float},
    numbersOf? key members = some xs ↔ (members.map fun y => y.number? key) = xs.map some
  | [], xs => by
    unfold numbersOf?
    cases xs <;> simp
  | y :: members, xs => by
    have ih := @numbersOf?_eq_some key members
    unfold numbersOf?
    cases hy : y.number? key with
    | none => cases xs <;> simp [hy]
    | some v => cases xs <;> simp [hy, Option.bind_eq_some_iff, ih, and_comm]

theorem accepts_iff (hmembers : members ≠ []) :
    r.accepts members = true ↔ ∃ xs, (members.map fun y => y.number? r.key) = xs.map some ∧
      r.Fits xs := by
  have haccepts : r.accepts members = true ↔ ∃ xs, numbersOf? r.key members = some xs ∧
      ∃ v, r.function.apply xs = some v ∧ r.operator.holds v r.threshold = true := by
    unfold accepts
    cases numbersOf? r.key members with
    | none => simp
    | some xs =>
      simp only [Option.bind_some, Option.some.injEq, exists_eq_left']
      cases r.function.apply xs with
      | none => simp
      | some v => simp
  rw [haccepts]
  refine exists_congr fun xs => ?_
  rw [numbersOf?_eq_some]
  refine and_congr_right fun hxs => fits_iff ?_
  rintro rfl
  exact hmembers (List.map_eq_nil_iff.1 hxs)

end AggregationRule

/-! ## Scopes -/

/-- The number under a key for a demand in scope: for the demand under resolution that of the
candidate on trial, and for another one that of the committed candidate. -/
def Path.reading (p : Path) (current : String) (trial : Candidate) (key d : String) :
    Option Float :=
  (if d = current then some trial else p.decided d).bind fun y => y.number? key

namespace Constraint

variable {c : Constraint} {p : Path} {d : String} {rules : List AggregationRule}

/-- Where all other demands in scope have a candidate committed to, every demand has its member. -/
theorem members_of_others (h : ∀ e ∈ c.demands, e ≠ d → ∃ y, p.decided e = some y)
    (x : Candidate) :
    c.members p d x = c.demands.map fun e => if e = d then x else (p.decided e).getD x := by
  rw [members_eq_map, List.filter_eq_self.2]
  intro e he
  by_cases hed : e = d
  · simp [hed]
  · obtain ⟨y, hy⟩ := h e he hed
    simp [hy]

theorem map_members (h : ∀ e ∈ c.demands, e ≠ d → ∃ y, p.decided e = some y)
    (x : Candidate) (key : String) :
    ((c.members p d x).map fun y => y.number? key) = c.demands.map (p.reading d x key) := by
  rw [members_of_others h, List.map_map]
  refine List.map_congr_left fun e he => ?_
  unfold Path.reading
  by_cases hed : e = d
  · simp [hed]
  · obtain ⟨y, hy⟩ := h e he hed
    simp [hed, hy]

theorem accepts_members_iff (hd : d ∈ c.demands)
    (h : ∀ e ∈ c.demands, e ≠ d → ∃ y, p.decided e = some y) {r : AggregationRule}
    {x : Candidate} :
    r.accepts (c.members p d x) = true ↔
      ∃ xs, c.demands.map (p.reading d x r.key) = xs.map some ∧ r.Fits xs := by
  have hmembers : c.members p d x ≠ [] := by
    rw [members_of_others h]
    exact fun hnil => List.ne_nil_of_mem hd (List.map_eq_nil_iff.1 hnil)
  rw [AggregationRule.accepts_iff hmembers, map_members h]

/-- Let what is committed in scope have its candidate, as it has on every path whose parts agree. An
aggregation over a scope in which only the demand under resolution is left to decide lets through a
candidate if for every rule each demand in scope has a number to read, and these numbers fit the
rule. So the value of no member is missing or no number, and none is a NaN where the aggregate shows
it: anywhere in a sum or an average, and in the first place of the scope where the first value
counts. Elsewhere a NaN is as good as no member at all to the least and to the greatest, which are
infinities if there is nothing else, and not looked at by the first. A scope that repeats the demand
lets through everything. A threshold lets through no candidate whose value is missing, no number or
a NaN, as no comparator holds of a NaN. -/
theorem filter_by_readings (hrule : c.rule = .aggregation rules)
    (hdecided : ∀ e ∈ c.demands, p.isDecided e = true → ∃ y, p.decided e = some y)
    (hcurrent : p.current = some d) (hcloses : c.Closes p d) (pool : List Candidate) :
    (c.demands.count d ≠ 1 → c.filter p pool = pure pool) ∧
    (c.demands.count d = 1 → ∃ test : Candidate → Bool, c.filter p pool = pure (pool.filter test) ∧
      (∀ x, test x = true ↔ ∀ r ∈ rules, ∃ xs, c.demands.map (p.reading d x r.key) = xs.map some ∧
        r.Fits xs) ∧
      ∀ x, test x = true → ∀ r ∈ rules, ∀ i e, c.demands[i]? = some e →
        ∃ v, p.reading d x r.key e = some v ∧ (r.Notices i → v.isNaN = false)) ∧
    (∀ (c' : Constraint) key operator bound, c'.rule = .threshold key operator bound →
      ∀ p' pool', ∃ test, c'.filter p' pool' = pure (pool'.filter test) ∧
        ∀ x, test x = true → ∃ v, x.number? key = some v ∧ v.isNaN = false) ∧
    ∀ (operator : Comparator) v t, operator.holds v t = true →
      v.isNaN = false ∧ t.isNaN = false := by
  have hfilter : c.filter p pool = pure (c.keepAggregated rules p pool) := by
    unfold filter
    rw [hrule]
  refine ⟨fun hcount => ?_, fun hcount => ?_, fun c' key operator bound hrule' p' pool' => ?_,
    fun operator v t => Comparator.isNaN_of_holds⟩
  · rw [hfilter, keepAggregated_of_not_completes hcurrent fun hc =>
      hcount (completes_iff_closes.1 hc).2]
  · have hothers : ∀ e ∈ c.demands, e ≠ d → ∃ y, p.decided e = some y :=
      fun e he hne => hdecided e he (hcloses.others e he hne)
    have htest : ∀ x, (rules.all fun r => r.accepts (c.members p d x)) = true ↔
        ∀ r ∈ rules, ∃ xs, c.demands.map (p.reading d x r.key) = xs.map some ∧ r.Fits xs := by
      intro x
      rw [List.all_eq_true]
      exact forall₂_congr fun r _ => accepts_members_iff hcloses.mem hothers
    refine ⟨_, ?_, htest, fun x hx r hr i e he => ?_⟩
    · rw [hfilter, keepAggregated_of_completes hcurrent (completes_iff_closes.2 ⟨hcloses, hcount⟩)]
    · obtain ⟨xs, hxs, hfits⟩ := (htest x).1 hx r hr
      have hat := congrArg (fun readings => readings[i]?) hxs
      simp only [List.getElem?_map, he, Option.map_some] at hat
      obtain ⟨v, hv, hreading⟩ := Option.map_eq_some_iff.1 hat.symm
      exact ⟨v, hreading.symm, fun hi => hfits.isNaN_of_notices hi hv⟩
  · refine ⟨fun x => x.meetsThreshold key operator bound, ?_,
      fun x => Candidate.exists_of_meetsThreshold⟩
    unfold filter
    rw [hrule']
    rfl

end Constraint

/-! ## A bandwidth that is a NaN -/

def Candidate.wide (id : String) (bandwidth : Json) : Candidate :=
  ⟨id, "aai", "cloud", 1.0, [("bw", bandwidth)]⟩

/-- A bound of four on an aggregate of bandwidths. -/
def ConstraintSpec.broad (function operator : String) : ConstraintSpec where
  name := "broad"
  kind := "aggregation"
  demands := ["b", "a"]
  priority := none
  properties := .object
    [("evaluate", .array [.object [("attribute", .string "bw"), ("function", .string function),
      ("operator", .string operator), ("threshold", .int 4)]])]

def Constraint.broad (function : Aggregate) (operator : Comparator) : Constraint where
  name := "broad"
  demands := ["b", "a"]
  priority := 8
  rule := .aggregation [⟨"bw", function, operator, 4.0⟩]

def Path.beside (bandwidth : Json) : Path :=
  { holding [("b", .wide "b1" bandwidth)] with current := some "a" }

/-- What is committed has its candidate. -/
theorem Path.exists_decided_beside (bandwidth : Json) {e : String}
    (h : (Path.beside bandwidth).isDecided e = true) :
    ∃ y, (Path.beside bandwidth).decided e = some y := by
  have hnodup : ([("b", Candidate.wide "b1" bandwidth)].map Prod.fst).Nodup :=
    List.nodup_singleton "b"
  have hagrees : (Path.beside bandwidth).Agrees := (holding_spec hnodup).1.congr rfl rfl rfl
  exact hagrees.exists_decided h

namespace Constraint

theorem closes_broad (function : Aggregate) (operator : Comparator) (bandwidth : Json) :
    (broad function operator).Closes (.beside bandwidth) "a" :=
  ⟨List.mem_cons_of_mem _ List.mem_cons_self, rfl, fun e he hne => by
    rcases List.mem_cons.1 he with rfl | he
    · rfl
    · exact absurd (List.mem_singleton.1 he) hne⟩

/-- A sum refuses the NaN and the text, and the least passes over the NaN. -/
theorem filter_by_readings_broad :
    (broad .sum .gte).Closes (.beside (.int 5)) "a" ∧
    (∃ test : Candidate → Bool,
      (broad .sum .gte).filter (.beside (.int 5))
          [.wide "a1" (.string "NaN"), .wide "a2" (.string "wide")] =
        pure ([.wide "a1" (.string "NaN"), .wide "a2" (.string "wide")].filter test) ∧
      test (.wide "a1" (.string "NaN")) = false ∧ test (.wide "a2" (.string "wide")) = false) ∧
    ∃ test : Candidate → Bool,
      (broad .min .gte).filter (.beside (.int 5)) [.wide "a1" (.string "NaN")] =
        pure ([.wide "a1" (.string "NaN")].filter test) ∧
        test (.wide "a1" (.string "NaN")) = true := by
  obtain ⟨-, hsum, -⟩ :=
    filter_by_readings (c := broad .sum .gte) rfl (fun _ _ => Path.exists_decided_beside _) rfl
      (closes_broad .sum .gte (.int 5))
      [.wide "a1" (.string "NaN"), .wide "a2" (.string "wide")]
  obtain ⟨-, hmin, -⟩ :=
    filter_by_readings (c := broad .min .gte) rfl (fun _ _ => Path.exists_decided_beside _) rfl
      (closes_broad .min .gte (.int 5))
      [.wide "a1" (.string "NaN")]
  obtain ⟨test, hfilter, -, hread⟩ := hsum rfl
  obtain ⟨test', hfilter', htest', -⟩ := hmin rfl
  refine ⟨closes_broad _ _ _, ⟨test, hfilter, ?_, ?_⟩, test', hfilter', ?_⟩
  · rw [← Bool.not_eq_true]
    intro htest
    obtain ⟨v, hv, hnan⟩ := hread _ htest _ (List.mem_singleton_self _) 1 "a" rfl
    cases hv
    exact absurd (hnan (.inl rfl)) (by decide +kernel)
  · rw [← Bool.not_eq_true]
    intro htest
    obtain ⟨v, hv, -⟩ := hread _ htest _ (List.mem_singleton_self _) 1 "a" rfl
    cases hv
  · rw [htest', List.forall_mem_singleton]
    exact ⟨[5.0, Decimal.notANumber], rfl, by
      show Comparator.gte.holds (Folds.least (Folds.numbers [5.0, Decimal.notANumber])) 4.0 = true
      decide +kernel⟩

/-- The least, the greatest and the first value let through a candidate whose bandwidth is a NaN,
and the least does so even where no member has another one. -/
theorem aggregation_passes_nan :
    (∀ names function operator, (names, function, operator) ∈
        [(("min", "gte"), Aggregate.min, Comparator.gte), (("max", "gte"), .max, .gte),
          (("first", "gte"), .first, .gte)] →
      Constraint.build (.broad names.1 names.2) = .ok (broad function operator) ∧
      ((broad function operator).filter (.beside (.int 5)) [.wide "a1" (.string "NaN")]).outcome
        Engine.recorded () = some (.ok [.wide "a1" (.string "NaN")])) ∧
    ((broad .min .gte).filter (.beside (.string "NaN")) [.wide "a1" (.string "NaN")]).outcome
      Engine.recorded () = some (.ok [.wide "a1" (.string "NaN")]) ∧
    ∃ v, (Candidate.wide "a1" (.string "NaN")).number? "bw" = some v ∧ v.isNaN = true := by
  refine ⟨?_, rfl, Decimal.notANumber, rfl, by decide +kernel⟩
  simp only [List.mem_cons, List.not_mem_nil, or_false, Prod.mk.injEq]
  rintro names function operator (⟨rfl, rfl, rfl⟩ | ⟨rfl, rfl, rfl⟩ | ⟨rfl, rfl, rfl⟩)
  · exact ⟨rfl, rfl⟩
  · exact ⟨rfl, rfl⟩
  · exact ⟨rfl, rfl⟩

end Constraint

end Placement
