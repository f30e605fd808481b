import Mathlib.Data.Int.Order.Basic
import Mathlib.Data.List.Perm.Basic
import Mathlib.Order.Lattice
import Placement.Proofs.Problem
import Placement.Search.Greedy

/-!
# Plans in another order

A plan lists its demands and its constraints in an order that decides on nothing where their sort
keys and priorities do. The checks see the names of the demands only as a collection, each
constraint is built by itself, and what has keys that differ can be sorted in one way only.
-/

namespace Placement

/-! ## Sorting by keys that differ -/

section

variable {α κ : Type} [LinearOrder κ] {key : α → κ} {l l' : List α}

theorem pairwise_mergeSort_key (key : α → κ) (l : List α) :
    (l.mergeSort fun a b => decide (key a ≤ key b)).Pairwise fun a b => key a ≤ key b := by
  have hsorted : (l.mergeSort fun a b => decide (key a ≤ key b)).Pairwise fun a b =>
      decide (key a ≤ key b) = true := by
    refine List.pairwise_mergeSort (fun a b c hab hbc => ?_) (fun a b => ?_) l
    · exact decide_eq_true (le_trans (of_decide_eq_true hab) (of_decide_eq_true hbc))
    · simpa using le_total (key a) (key b)
  exact hsorted.imp of_decide_eq_true

/-- Where no two elements have the same key, the sorted list does not depend on the order of the
given one. -/
theorem mergeSort_eq_of_perm (h : l'.Perm l) (hkeys : (l.map key).Nodup) :
    (l'.mergeSort fun a b => decide (key a ≤ key b)) =
      l.mergeSort fun a b => decide (key a ≤ key b) := by
  refine List.Perm.eq_of_pairwise (fun a b ha hb hab hba => ?_) (pairwise_mergeSort_key key l')
    (pairwise_mergeSort_key key l)
    ((List.mergeSort_perm l' _).trans (h.trans (List.mergeSort_perm l _).symm))
  -- Elements that may stand either way have one key, so they are one element.
  have ha : a ∈ l := h.subset (List.mem_mergeSort.1 ha)
  have hb : b ∈ l := List.mem_mergeSort.1 hb
  exact List.inj_on_of_nodup_map hkeys ha hb (le_antisymm hab hba)

/-- Keys that differ ascend strictly in the sorted list. -/
theorem pairwise_lt_mergeSort_key (hkeys : (l.map key).Nodup) :
    (l.mergeSort fun a b => decide (key a ≤ key b)).Pairwise fun a b => key a < key b := by
  have hnodup : ((l.mergeSort fun a b => decide (key a ≤ key b)).map key).Nodup :=
    ((List.mergeSort_perm l _).map key).nodup_iff.2 hkeys
  exact (pairwise_mergeSort_key key l).imp₂
    (fun _ _ hle hne => lt_of_le_of_ne hle hne) (List.pairwise_map.1 hnodup)

end

/-! ## Objectives over the same names -/

/-- The scopes have the same demands, in whatever order, and the same places. -/
structure Scope.Same (s s' : Scope) : Prop where
  demands : ∀ d, d ∈ s'.demands ↔ d ∈ s.demands
  locations : s'.locations = s.locations

namespace Term

variable {s s' : Scope}

theorem checkDemands_congr (h : s.Same s') :
    ∀ ds : List String, s'.checkDemands ds = s.checkDemands ds
  | [] => rfl
  | d :: ds => by
    rw [Scope.checkDemands, Scope.checkDemands, checkDemands_congr h ds]
    exact if_congr (h.demands d) rfl rfl

theorem buildLeaf_congr (h : s.Same s') (name : String) (ps : Params) (scale : Scale) :
    buildLeaf s' name ps scale = buildLeaf s name ps scale := by
  unfold buildLeaf Scope.checkLocation
  rw [checkDemands_congr h, h.locations]

mutual
theorem buildOperation_congr (h : s.Same s') :
    ∀ spec : OperationSpec, buildOperation s' spec = buildOperation s spec
  | .mk operator operands => by rw [buildOperation, buildOperation, buildOperands_congr h operands]

theorem buildOperands_congr (h : s.Same s') :
    ∀ specs : List OperandSpec, buildOperands s' specs = buildOperands s specs
  | [] => by rw [buildOperands, buildOperands]
  | spec :: specs => by
    rw [buildOperands, buildOperands, build_congr h spec, buildOperands_congr h specs]

theorem build_congr (h : s.Same s') : ∀ spec : OperandSpec, build s' spec = build s spec
  | .mk function params operation scale => by
    unfold build
    cases function with
    | none =>
      cases operation with
      | none => rfl
      | some nested => simp only [buildOperation_congr h nested]
    | some name =>
      cases operation with
      | none => simp only [buildLeaf_congr h]
      | some nested => rfl
end

end Term

theorem Objective.build_congr {s s' : Scope} (h : s.Same s') (spec : ObjectiveSpec) :
    Objective.build s' spec = Objective.build s spec := by
  unfold build
  rw [Term.buildOperation_congr h]

/-! ## Constraints one by one -/

/-- The priority that a descriptor sets, or else the one of its type, if that is known. -/
def ConstraintSpec.rank? (spec : ConstraintSpec) : Option Nat :=
  spec.priority.or ((Kind.ofTag? spec.kind).map Kind.defaultPriority)

theorem ConstraintSpec.rank?_of_build {spec : ConstraintSpec} {c : Constraint}
    (h : Constraint.build spec = .ok c) :
    spec.rank? = some c.priority := by
  unfold Constraint.build at h
  unfold rank?
  split at h
  · cases h
  · next kind hkind =>
    split at h
    · cases h
    · cases h
      rw [hkind]
      cases spec.priority <;> rfl

namespace Problem

variable {plan : Plan} {p p' : Problem} {ds : List Demand} {specs specs' : List ConstraintSpec}
  {known known' : List String} {cs : List Constraint}

theorem buildConstraint_congr (h : ∀ d, d ∈ known' ↔ d ∈ known) (spec : ConstraintSpec) :
    buildConstraint known' spec = buildConstraint known spec := by
  have hcontains : ∀ d, known'.contains d = known.contains d := fun d => by
    rw [Bool.eq_iff_iff, List.contains_iff_mem, List.contains_iff_mem, h d]
  unfold buildConstraint
  simp only [hcontains]

/-- Constraints that are built from reordered descriptors are the reordered constraints. -/
theorem buildConstraints_perm (hknown : ∀ d, d ∈ known' ↔ d ∈ known) (hspecs : specs'.Perm specs)
    (h : buildConstraints known specs = .ok cs) :
    ∃ cs', buildConstraints known' specs' = .ok cs' ∧ cs'.Perm cs := by
  obtain ⟨cs', hcs', hperm⟩ := List.perm_comp_forall₂ hspecs (buildConstraints_iff.1 h)
  refine ⟨cs', buildConstraints_iff.2 (hcs'.imp fun spec c hc => ?_), hperm⟩
  rwa [buildConstraint_congr hknown]

theorem ranks_of_buildConstraints (h : buildConstraints known specs = .ok cs) :
    specs.filterMap ConstraintSpec.rank? = cs.map Constraint.priority := by
  have hbuilt := buildConstraints_iff.1 h
  clear h
  induction hbuilt with
  | nil => rfl
  | cons hc _ ih =>
    rw [List.filterMap_cons_some (ConstraintSpec.rank?_of_build (buildConstraint_ok hc).1), ih]
    rfl

/-- A plan that is accepted is accepted as the same problem with its demands and constraints in any
other order. -/
theorem ofPlan_of_perm (hdemands : ds.Perm plan.demands) (hspecs : specs.Perm plan.constraints)
    (hkeys : (plan.demands.map Demand.sortKey).Nodup)
    (hranks : (plan.constraints.filterMap ConstraintSpec.rank?).Nodup) (hp : ofPlan plan = .ok p) :
    ofPlan { plan with demands := ds, constraints := specs } = .ok p := by
  obtain ⟨cs, o, hnames, hlocations, hcs, ho, rfl⟩ := ofPlan_ok.1 hp
  have hperm : (ds.map Demand.name).Perm (plan.demands.map Demand.name) := hdemands.map Demand.name
  have hmem : ∀ d, d ∈ ds.map Demand.name ↔ d ∈ plan.demands.map Demand.name :=
    fun d => hperm.mem_iff
  obtain ⟨hnodup, -⟩ := (decides_checkDistinct _ _).ok.1 ⟨_, hnames⟩
  obtain ⟨⟨⟩, hnames'⟩ : ∃ u, checkDistinct [] (ds.map Demand.name) = .ok u :=
    (decides_checkDistinct _ _).ok.2 ⟨hperm.nodup_iff.2 hnodup, fun _ _ => List.not_mem_nil⟩
  obtain ⟨cs', hcs', hcsperm⟩ := buildConstraints_perm hmem hspecs hcs
  refine ofPlan_ok.2 ⟨cs', o, hnames', hlocations, hcs', ?_, ?_⟩
  · have hsame : Scope.Same ⟨plan.demands.map Demand.name, plan.atlas.locations⟩
        ⟨ds.map Demand.name, plan.atlas.locations⟩ := ⟨hmem, rfl⟩
    exact (Objective.build_congr hsame plan.objective).trans ho
  · have hcleaned : ((plan.demands.map Demand.cleaned).map Demand.sortKey).Nodup := by
      rw [List.map_map]
      exact hkeys
    rw [ranks_of_buildConstraints hcs] at hranks
    unfold processingOrder applicationOrder
    rw [mergeSort_eq_of_perm (hdemands.map Demand.cleaned) hcleaned,
      mergeSort_eq_of_perm hcsperm hranks]

/-- A plan in which no two demands have the same sort key and no two constraints the same priority,
be it set or that of the type, says the same in whatever order it lists them: it is accepted in
every order or in none, and as one problem, with the demands in ascending order of their sort keys
and the constraints in that of their priorities. So a greedy search in conversation with any engine
asks the same questions, leaves the engine in the same state and ends alike. -/
theorem ofPlan_perm (hdemands : ds.Perm plan.demands) (hspecs : specs.Perm plan.constraints)
    (hkeys : (plan.demands.map Demand.sortKey).Nodup)
    (hranks : (plan.constraints.filterMap ConstraintSpec.rank?).Nodup) :
    ((∃ p, ofPlan { plan with demands := ds, constraints := specs } = .ok p) ↔
      ∃ p, ofPlan plan = .ok p) ∧
    ∀ p p', ofPlan plan = .ok p →
      ofPlan { plan with demands := ds, constraints := specs } = .ok p' →
      p' = p ∧ p.demands.Pairwise (fun d e => d.sortKey < e.sortKey) ∧
      p.constraints.Pairwise (fun c c' => c.priority < c'.priority) ∧
      ∀ (σ : Type) (engine : Engine σ) (s : σ),
        p'.greedy.run.run engine s = p.greedy.run.run engine s := by
  have hkeys' : (ds.map Demand.sortKey).Nodup := (hdemands.map _).nodup_iff.2 hkeys
  have hranks' : (specs.filterMap ConstraintSpec.rank?).Nodup :=
    (hspecs.filterMap _).nodup_iff.2 hranks
  refine ⟨⟨fun ⟨p, hp⟩ => ⟨p, ?_⟩,
    fun ⟨p, hp⟩ => ⟨p, ofPlan_of_perm hdemands hspecs hkeys hranks hp⟩⟩, ?_⟩
  · exact @ofPlan_of_perm { plan with demands := ds, constraints := specs } p
      plan.demands plan.constraints hdemands.symm hspecs.symm hkeys' hranks' hp
  · intro p p' hp hp'
    obtain rfl : p = p' :=
      Except.ok.inj ((ofPlan_of_perm hdemands hspecs hkeys hranks hp).symm.trans hp')
    refine ⟨rfl, ?_, ?_, fun σ engine s => rfl⟩
    · obtain ⟨cs, o, -, -, -, -, rfl⟩ := ofPlan_ok.1 hp
      refine pairwise_lt_mergeSort_key ?_
      rw [List.map_map]
      exact hkeys
    · obtain ⟨cs, o, -, -, hcs, -, rfl⟩ := ofPlan_ok.1 hp
      rw [ranks_of_buildConstraints hcs] at hranks
      exact pairwise_lt_mergeSort_key hranks

end Problem

/-! ## Sites in the other order -/

/-- The plan of two sites with a sort key for each. -/
def Plan.keyedSites : Plan :=
  { Plan.twoSites with
    demands :=
      [⟨"a", [.eastern "a1" 3.0, .eastern "a2" 1.0], 1⟩,
        ⟨"b", [.eastern "b1" 1.0, .eastern "b2" 1.0], 2⟩] }

def Problem.keyedSites : Problem := { Problem.twoSites with demands := Plan.keyedSites.demands }

theorem Problem.ofPlan_keyedSites : Problem.ofPlan .keyedSites = .ok .keyedSites :=
  Problem.ofPlan_sorted rfl rfl rfl rfl (by decide) (by decide)

theorem Problem.ofPlan_perm_keyedSites :
    (Plan.keyedSites.demands.map Demand.sortKey).Nodup ∧
      (Plan.keyedSites.constraints.filterMap ConstraintSpec.rank?).Nodup ∧
      ∃ p, Problem.ofPlan
          { Plan.keyedSites with
            demands := Plan.keyedSites.demands.reverse
            constraints := Plan.keyedSites.constraints.reverse } = .ok p ∧
            p = Problem.keyedSites := by
  have hkeys : (Plan.keyedSites.demands.map Demand.sortKey).Nodup := by decide
  have hranks : (Plan.keyedSites.constraints.filterMap ConstraintSpec.rank?).Nodup := by decide
  obtain ⟨haccepts, hsame⟩ := Problem.ofPlan_perm (List.reverse_perm Plan.keyedSites.demands)
    (List.reverse_perm Plan.keyedSites.constraints) hkeys hranks
  obtain ⟨p, hp⟩ := haccepts.2 ⟨_, Problem.ofPlan_keyedSites⟩
  exact ⟨hkeys, hranks, p, hp, (hsame _ p Problem.ofPlan_keyedSites hp).1⟩

end Placement
