import Placement.Proofs.Decimal.Extremes
import Placement.Proofs.Folds
import Placement.Proofs.Objective.Active
import Placement.Proofs.Objective.Failure
import Placement.Proofs.Problem

/-!
# Latency weights

The worst of some weights is what is left of a fold that starts from zero and takes over what is
greater. So it is the greatest weight if one is greater than zero, and zero otherwise, in whatever
order the weights come. Where every weight is negative it is none of them.
-/

namespace Placement

/-! ## Positive doubles -/

namespace Decimal

theorem rankOf_zero : rankOf 0.0 = toLex (0, toLex (0, 0)) := by decide +kernel

/-- In the middle of the order stands a single rank. -/
theorem rank_eq_of_fst_eq_zero {u : Float.Model.UnpackedFloat} (h : (ofLex (rank u)).1 = 0) :
    rank u = toLex (0, toLex (0, 0)) := by
  rcases u with (_ | _) | _ | _ | ⟨_ | _, _, _, _⟩ <;> simp [rank] at h ⊢

/-- Positive doubles neither of which is less are the same. -/
theorem eq_of_not_lt {x y : Float} (hx : 0.0 < x) (hy : y.isNaN = false) (hxy : ¬ x < y)
    (hyx : ¬ y < x) : x = y := by
  have hnan := (isNaN_of_lt hx).2
  rw [lt_iff_rank] at hx hxy hyx
  have hrank : rankOf x = rankOf y :=
    le_antisymm (not_lt.1 fun h => hyx ⟨hy, hnan, h⟩) (not_lt.1 fun h => hxy ⟨hnan, hy, h⟩)
  refine eq_of_rankOf_eq hrank fun hzero => ?_
  have hlt := hx.2.2
  rw [rankOf, rankOf, rank_eq_of_fst_eq_zero hzero] at hlt
  rw [show rank (0.0 : Float).toModel.unpack = _ from rankOf_zero] at hlt
  exact lt_irrefl _ hlt

end Decimal

/-! ## The worst of some weights -/

namespace Folds

/-- One step keeps what it has or takes over what is greater, and what it ends with is not exceeded
by what it looked at. -/
theorem greater_step (v : Float) {a : Float} (ha : a.isNaN = false) :
    (greater a v).isNaN = false ∧ ¬ greater a v < v ∧
    (greater a v = a ∨ greater a v = v ∧ a < v) := by
  rw [greater_eq v ha]
  by_cases hv : a < v
  · rw [if_pos hv]
    exact ⟨(Decimal.isNaN_of_lt hv).2, Decimal.not_lt_self v, .inr ⟨rfl, hv⟩⟩
  · rw [if_neg hv]
    exact ⟨ha, hv, .inl rfl⟩

/-- A fold that takes over what is greater ends with its start or with something greater, and
nothing exceeds that. -/
theorem foldl_greater : ∀ (ws : List Float) {a : Float}, a.isNaN = false →
    (ws.foldl greater a = a ∨ ws.foldl greater a ∈ ws ∧ a < ws.foldl greater a) ∧
    ∀ v ∈ ws, ¬ ws.foldl greater a < v
  | [], a, _ => ⟨.inl rfl, List.forall_mem_nil _⟩
  | v :: ws, a, ha => by
    obtain ⟨hnan, hpassed, hstep⟩ := greater_step v ha
    rw [List.foldl_cons]
    generalize greater a v = b at hnan hpassed hstep
    obtain ⟨hends, hws⟩ := foldl_greater ws hnan
    refine ⟨?_, List.forall_mem_cons.2 ⟨?_, hws⟩⟩
    · rcases hends with hend | ⟨hmem, hlt⟩
      · rw [hend]
        rcases hstep with hkept | ⟨rfl, hav⟩
        · exact .inl hkept
        · exact .inr ⟨List.mem_cons_self, hav⟩
      · rcases hstep with rfl | ⟨rfl, hav⟩
        · exact .inr ⟨List.mem_cons_of_mem v hmem, hlt⟩
        · exact .inr ⟨List.mem_cons_of_mem b hmem, Decimal.lt_of_lt_of_lt hav hlt⟩
    · -- What exceeds the end of the fold exceeds everything on the way there.
      rcases hends with hend | ⟨-, hlt⟩
      · rw [hend]
        exact hpassed
      · exact fun h => hpassed (Decimal.lt_of_lt_of_lt hlt h)

end Folds

/-- A weight that no weight of a list exceeds: one of them if one is positive, and zero
otherwise. -/
structure Worst (ws : List Float) (w : Float) : Prop where
  number : w.isNaN = false
  unexceeded : ∀ v ∈ ws, ¬ w < v
  listed : (∃ v ∈ ws, 0.0 < v) → w ∈ ws
  zero : (∀ v ∈ ws, ¬ 0.0 < v) → w = 0.0

namespace Worst

variable {ws ws' : List Float} {w w' : Float}

theorem foldl_greater (ws : List Float) : Worst ws (ws.foldl Folds.greater 0.0) := by
  obtain ⟨hends, hws⟩ := Folds.foldl_greater ws (a := 0.0) (by decide +kernel)
  rcases hends with heq | ⟨hmem, hlt⟩
  · rw [heq] at hws ⊢
    exact ⟨by decide +kernel, hws, fun ⟨v, hv, hpos⟩ => absurd hpos (hws v hv), fun _ => rfl⟩
  · exact ⟨(Decimal.isNaN_of_lt hlt).2, hws, fun _ => hmem, fun hnone => absurd hlt (hnone _ hmem)⟩

theorem perm (h : Worst ws w) (hperm : ws.Perm ws') : Worst ws' w where
  number := h.number
  unexceeded v hv := h.unexceeded v (hperm.mem_iff.2 hv)
  listed := fun ⟨v, hv, hpos⟩ => hperm.mem_iff.1 (h.listed ⟨v, hperm.mem_iff.2 hv, hpos⟩)
  zero hnone := h.zero fun v hv => hnone v (hperm.mem_iff.1 hv)

theorem pos (h : Worst ws w) (hpos : ∃ v ∈ ws, 0.0 < v) : 0.0 < w := by
  obtain ⟨v, hv, hlt⟩ := hpos
  -- A weight between zero and `v` would be exceeded by `v`.
  by_contra hnot
  exact h.unexceeded v hv (Decimal.lt_of_not_lt_of_lt hlt hnot h.number)

/-- A list has one worst weight. -/
theorem eq (h : Worst ws w) (h' : Worst ws w') : w = w' := by
  by_cases hpos : ∃ v ∈ ws, 0.0 < v
  · exact Decimal.eq_of_not_lt (h.pos hpos) h'.number (h.unexceeded _ (h'.listed hpos))
      (h'.unexceeded _ (h.listed hpos))
  · have hnone : ∀ v ∈ ws, ¬ 0.0 < v := fun v hv hlt => hpos ⟨v, hv, hlt⟩
    rw [h.zero hnone, h'.zero hnone]

/-- The worst weight is one of the list, up to the sign of a zero, unless every weight is
negative. -/
theorem exists_beq_iff (h : Worst ws w) : (∃ v ∈ ws, (w == v) = true) ↔ ∃ v ∈ ws, 0.0 ≤ v := by
  constructor
  · rintro ⟨v, hv, heq⟩
    refine ⟨v, hv, ?_⟩
    obtain ⟨-, hnan, hrank⟩ := (Decimal.beq_iff_rank w v).1 heq
    rw [Decimal.le_iff_rank]
    refine ⟨by decide +kernel, hnan, hrank ▸ ?_⟩
    by_cases hpos : ∃ v ∈ ws, 0.0 < v
    · exact le_of_lt ((Decimal.lt_iff_rank _ _).1 (h.pos hpos)).2.2
    · rw [h.zero fun v hv hlt => hpos ⟨v, hv, hlt⟩]
  · rintro ⟨v, hv, hle⟩
    by_cases hpos : ∃ v ∈ ws, 0.0 < v
    · exact ⟨w, h.listed hpos, Decimal.beq_self_iff.2 h.number⟩
    · have hnone : ∀ v ∈ ws, ¬ 0.0 < v := fun v hv hlt => hpos ⟨v, hv, hlt⟩
      obtain ⟨hzero, hnan, hrank⟩ := (Decimal.le_iff_rank 0.0 v).1 hle
      refine ⟨v, hv, (Decimal.beq_iff_rank w v).2 ⟨h.number, hnan, ?_⟩⟩
      rw [h.zero hnone]
      exact le_antisymm hrank (not_lt.1 fun hlt =>
        hnone v hv ((Decimal.lt_iff_rank 0.0 v).2 ⟨hzero, hnan, hlt⟩))

end Worst

/-! ## Latency leaves -/

namespace Atlas

variable {a : Atlas} {x : Candidate} {v : Float}

/-- The table of the atlas lists a weight for the text of the candidate's country. -/
def Lists (a : Atlas) (x : Candidate) (v : Float) : Prop :=
  ∃ country, x.text? "country" = some country ∧ Table.get? a.latencyWeights country = some v

/-- The weights of the table, by the order of the countries. -/
def weights (a : Atlas) : List Float := a.latencyWeights.map Prod.snd

theorem latency_of_lists (h : a.Lists x v) : a.latency x = v := by
  obtain ⟨country, hcountry, hv⟩ := h
  unfold latency
  rw [hcountry, Option.bind_some, hv, Option.getD_some]

theorem latency_of_not_lists (h : ∀ v, ¬ a.Lists x v) : a.latency x = a.worstLatency := by
  unfold latency
  cases hv : (x.text? "country").bind (Table.get? a.latencyWeights) with
  | none => rfl
  | some v => exact absurd (Option.bind_eq_some_iff.1 hv) (h v)

end Atlas

namespace Problem

variable {plan : Plan} {problem : Problem} {p : Path} {ps : Params}

theorem latency_value (h : ofPlan plan = .ok problem)
    (hl : (.latency, ps) ∈ problem.objective.active p) :
    ∃ d x, ps.demand = some d ∧ p.decision? d = some x ∧
      Measure.latency.value problem.atlas p ps = pure (plan.atlas.latency x) := by
  obtain ⟨hleaf, hactive⟩ := Objective.mem_active.1 hl
  obtain ⟨cs, o, -, -, -, ho, rfl⟩ := ofPlan_ok.1 h
  have hallows := Objective.build_allows ho _ hleaf
  have hshape := hallows.shape
  simp only [Measure.accepts, Bool.and_eq_true] at hshape
  obtain ⟨d, hd⟩ := Option.isSome_iff_exists.1 hshape.1.1
  obtain ⟨x, hx⟩ :=
    Option.isSome_iff_exists.1 (List.all_eq_true.1 hactive d (by simp [Params.referenced, hd]))
  obtain ⟨ls, hls, -⟩ := Measure.namedPlaces_total (a := plan.atlas) ps.location hallows.location
  refine ⟨d, x, hd, hx, ?_⟩
  unfold Measure.value Measure.arguments Measure.subject Measure.decided
  simp only [hd, hx, hls]
  rfl

/-- On every path an active latency leaf has a value: the weight that the table of the plan lists
for the text of the candidate's country, and where it lists none the worst weight of the table,
whatever the order of the countries. No weight exceeds the worst one, which is the greatest of the
weights as soon as one of them is not negative. Of a table in which all weights are negative it is
zero, which is none of them. -/
theorem latency_of_country (h : ofPlan plan = .ok problem)
    (hl : (.latency, ps) ∈ problem.objective.active p) :
    ∃ d x w, ps.demand = some d ∧ p.decision? d = some x ∧
      Measure.latency.value problem.atlas p ps = pure w ∧
      (∀ v, plan.atlas.Lists x v → w = v ∧ w ∈ plan.atlas.weights) ∧
      ((∀ v, ¬ plan.atlas.Lists x v) →
        (∀ v ∈ plan.atlas.weights, ¬ w < v) ∧
        ((∃ v ∈ plan.atlas.weights, 0.0 < v) → w ∈ plan.atlas.weights) ∧
        ((∃ v ∈ plan.atlas.weights, (w == v) = true) ↔ ∃ v ∈ plan.atlas.weights, 0.0 ≤ v) ∧
        ((∀ v ∈ plan.atlas.weights, ¬ 0.0 < v) → w = 0.0) ∧
        ∀ ws : List Float, ws.Perm plan.atlas.weights → w = ws.foldl Folds.greater 0.0) := by
  obtain ⟨d, x, hd, hx, hvalue⟩ := latency_value h hl
  refine ⟨d, x, _, hd, hx, hvalue, fun v hv => ?_, fun hnone => ?_⟩
  · rw [Atlas.latency_of_lists hv]
    obtain ⟨country, -, hcountry⟩ := hv
    exact ⟨rfl, List.mem_map.2 ⟨_, Table.mem_of_get? hcountry, rfl⟩⟩
  · rw [Atlas.latency_of_not_lists hnone]
    have hworst : Worst plan.atlas.weights plan.atlas.worstLatency := .foldl_greater _
    exact ⟨hworst.unexceeded, hworst.listed, hworst.exists_beq_iff, hworst.zero,
      fun ws hperm => hworst.eq ((Worst.foldl_greater ws).perm hperm)⟩

end Problem

/-! ## A country that is not listed -/

/-- One demand with a candidate in a country, and the weight of that country is sought. -/
def Plan.overseas (country : String) (weights : Table Float) : Plan where
  demands := [⟨"a", [⟨"a1", "aai", "cloud", 1.0, [("country", .string country)]⟩], 0⟩]
  constraints := []
  objective := ⟨.minimize, .mk "sum"
    [.mk (some "latency_between") (some { demand := some "a", location := some "x" }) none {}]⟩
  atlas := { locations := [("x", ⟨0.0, 0.0⟩)], latencyWeights := weights }

def Problem.overseas (country : String) (weights : Table Float) : Problem where
  demands := (Plan.overseas country weights).demands
  constraints := []
  objective := ⟨.minimize, .sum, [.leaf .latency { demand := some "a", location := some "x" } {}]⟩
  atlas := (Plan.overseas country weights).atlas

def Path.overseas (country : String) : Path :=
  assuming {} "a" ⟨"a1", "aai", "cloud", 1.0, [("country", .string country)]⟩

namespace Problem

theorem ofPlan_overseas (country : String) (weights : Table Float) :
    ofPlan (.overseas country weights) = .ok (.overseas country weights) := by
  have hvalid : (Location.mk 0.0 0.0).isValid = true := by decide +kernel
  refine ofPlan_sorted rfl ?_ rfl rfl (List.pairwise_singleton _ _) List.Pairwise.nil
  simp only [Plan.overseas, checkLocations, Location.check, hvalid, if_true]

theorem latency_of_country_worst :
    ofPlan (.overseas "JP" [("FR", 4.0), ("US", 1.0)]) =
      .ok (.overseas "JP" [("FR", 4.0), ("US", 1.0)]) ∧
    ∃ w, Measure.latency.value (Problem.overseas "JP" [("FR", 4.0), ("US", 1.0)]).atlas
        (.overseas "JP") { demand := some "a", location := some "x" } = pure w ∧
      w ∈ [4.0, 1.0] ∧ ¬ w < 4.0 ∧ w = [1.0, 4.0].foldl Folds.greater 0.0 := by
  have hplan := ofPlan_overseas "JP" [("FR", 4.0), ("US", 1.0)]
  have hactive : (.latency, { demand := some "a", location := some "x" }) ∈
      (Problem.overseas "JP" [("FR", 4.0), ("US", 1.0)]).objective.active (.overseas "JP") :=
    List.mem_cons_self
  obtain ⟨d, x, w, hd, hx, hvalue, -, hworst⟩ := latency_of_country hplan hactive
  cases hd
  cases hx
  obtain ⟨hunexceeded, hlisted, -, -, hperm⟩ := hworst (by rintro v ⟨country, ⟨⟩, ⟨⟩⟩)
  exact ⟨hplan, w, hvalue, hlisted ⟨4.0, List.mem_cons_self, by decide +kernel⟩,
    hunexceeded _ List.mem_cons_self, hperm _ (List.Perm.swap _ _ _)⟩

/-- A country that the table does not list has the weight zero where all weights are negative, and
the greatest of them is less. -/
theorem latency_not_listed :
    ofPlan (.overseas "JP" [("FR", -4.0), ("US", -1.0)]) =
      .ok (.overseas "JP" [("FR", -4.0), ("US", -1.0)]) ∧
    (.latency, { demand := some "a", location := some "x" }) ∈
      (Problem.overseas "JP" [("FR", -4.0), ("US", -1.0)]).objective.active (.overseas "JP") ∧
    Measure.latency.value (Problem.overseas "JP" [("FR", -4.0), ("US", -1.0)]).atlas
      (.overseas "JP") { demand := some "a", location := some "x" } = pure 0.0 ∧
    (∀ v ∈ (Problem.overseas "JP" [("FR", -4.0), ("US", -1.0)]).atlas.weights, v < 0.0) := by
  have hplan := ofPlan_overseas "JP" [("FR", -4.0), ("US", -1.0)]
  have hactive : (.latency, { demand := some "a", location := some "x" }) ∈
      (Problem.overseas "JP" [("FR", -4.0), ("US", -1.0)]).objective.active (.overseas "JP") :=
    List.mem_cons_self
  have hworst : (Plan.overseas "JP" [("FR", -4.0), ("US", -1.0)]).atlas.worstLatency = 0.0 := by
    decide +kernel
  obtain ⟨d, x, hd, hx, hvalue⟩ := latency_value hplan hactive
  cases hd
  cases hx
  refine ⟨hplan, hactive, ?_, by decide +kernel⟩
  rw [hvalue, Atlas.latency_of_not_lists (by rintro v ⟨country, ⟨⟩, ⟨⟩⟩), hworst]

end Problem

end Placement
