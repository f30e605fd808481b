import Placement.Proofs.Constraint.Failure
import Placement.Proofs.Constraint.Passes
import Placement.Proofs.Problem

/-!
# The pipeline as a conjunction

Against the engine that answers from the records, a constraint that is neither on hardware nor on
capacity filters a pool by a test of each candidate. Filters commute, so the pipeline lets through
the candidates that pass all tests, in the order of the pool, whatever the order in which the
constraints are applied and wherever the pipeline stops.
-/

namespace Placement

open Solving

variable {plan : Plan} {p : Problem} {path : Path} {d : Demand} {demand : String} {c : Constraint}
  {cs : List Constraint} {pool : List Candidate}

/-! ## Filters -/

namespace Constraint

/-- The constraint tests each candidate by itself, and where it measures distances it knows where
the siblings are. -/
structure Tests (c : Constraint) (path : Path) (demand : String) : Prop where
  kind : c.kind ≠ .hpa ∧ c.kind ≠ .vimFit
  placed : c.kind = .distance → ∀ y, c.Sibling path demand y → (Recorded.location? y).isSome = true

theorem not_missesSibling (hcurrent : path.current = some demand) (h : c.Tests path demand)
    {log : List Exchange} {e : SolveError} (ha : Engine.recorded.Answers log) :
    ¬ c.MissesSibling path log e := by
  intro hmisses
  obtain ⟨hkind, sibling, x, hmem, hnone⟩ := hmisses.exists_placeless ha
  have hplaced := h.placed hkind x ((exists_mem_decidedSiblings hcurrent).1 ⟨sibling, hmem⟩)
  rw [hnone] at hplaced
  cases hplaced

theorem outcome_filter (hids : (pool.map Candidate.id).Nodup)
    (hcurrent : path.current = some demand) (h : c.Tests path demand) :
    (c.filter path pool).outcome Engine.recorded () = some (.ok (pool.filter (c.admits path))) := by
  obtain ⟨r, hr⟩ := outcome_recorded (c.filter path pool)
  obtain ⟨log, hends, ha⟩ := (outcome_iff Engine.stateless_recorded).1 hr
  cases r with
  | ok out => rw [hr, filter_recorded hids h.kind hends ha]
  | error e =>
    rcases filter_error hends with hfailed | hmisses
    · exact absurd hfailed (not_failed_recorded ha)
    · exact absurd hmisses (not_missesSibling hcurrent h ha)

end Constraint

/-! ## Filters one after the other -/

/-- The constraints one after the other, each of them applied even if none of the candidates is
left. -/
def narrowThroughout (path : Path) : List Constraint → List Candidate → Solving (List Candidate)
  | [], pool => pure pool
  | c :: cs, pool => do
    let kept ← c.filter path pool
    narrowThroughout path cs kept

theorem nodup_filter (hids : (pool.map Candidate.id).Nodup) (f : Candidate → Bool) :
    ((pool.filter f).map Candidate.id).Nodup :=
  hids.sublist (List.filter_sublist.map _)

theorem filter_all_nil (path : Path) (pool : List Candidate) :
    (pool.filter fun x => ([] : List Constraint).all fun c => c.admits path x) = pool :=
  List.filter_eq_self.2 fun _ _ => rfl

theorem filter_all_cons (path : Path) (c : Constraint) (cs : List Constraint)
    (pool : List Candidate) :
    (pool.filter fun x => (c :: cs).all fun c => c.admits path x) =
      (pool.filter (c.admits path)).filter fun x => cs.all fun c => c.admits path x := by
  rw [List.filter_filter]
  refine List.filter_congr fun x _ => ?_
  rw [List.all_cons, Bool.and_comm]

theorem outcome_narrowThroughout (hcurrent : path.current = some demand) : ∀ {cs : List Constraint}
    {pool : List Candidate}, (pool.map Candidate.id).Nodup → (∀ c ∈ cs, c.Tests path demand) →
      (narrowThroughout path cs pool).outcome Engine.recorded () =
        some (.ok (pool.filter fun x => cs.all fun c => c.admits path x))
  | [], pool, _, _ => by
    rw [filter_all_nil]
    exact outcome_pure
  | c :: cs, pool, hids, hcs => by
    obtain ⟨hc, hcs⟩ := List.forall_mem_cons.1 hcs
    rw [narrowThroughout,
      outcome_bind_ok Engine.stateless_recorded (Constraint.outcome_filter hids hcurrent hc),
      outcome_narrowThroughout hcurrent (nodup_filter hids _) hcs, filter_all_cons]

theorem outcome_narrow (hcurrent : path.current = some demand) :
    ∀ {cs : List Constraint} {pool : List Candidate},
    (pool.map Candidate.id).Nodup → (∀ c ∈ cs, c.Tests path demand) →
      (narrow path cs pool).outcome Engine.recorded () =
        some (.ok (pool.filter fun x => cs.all fun c => c.admits path x))
  | [], pool, _, _ => by
    rw [filter_all_nil]
    exact outcome_pure
  | c :: cs, pool, hids, hcs => by
    obtain ⟨hc, hcs⟩ := List.forall_mem_cons.1 hcs
    have hkept := Constraint.outcome_filter hids hcurrent hc
    have hnodup := nodup_filter hids (c.admits path)
    rw [filter_all_cons, narrow, outcome_bind_ok Engine.stateless_recorded hkept]
    generalize pool.filter (c.admits path) = kept at hnodup
    cases kept with
    | nil => exact outcome_pure
    | cons x xs => exact outcome_narrow hcurrent hnodup hcs

/-- A constraint that is tested beside a demand under resolution can be decided on. -/
instance (c : Constraint) (path : Path) (demand : String) (x : Candidate) :
    Decidable (c.Passes path demand x) :=
  decidable_of_iff (c.admits { path with current := some demand } x = true)
    (Constraint.admits_iff_passes (p := { path with current := some demand }) rfl)

theorem Problem.outcome_survivors (hp : p.WellFormed) (hd : d ∈ p.demands)
    (hcurrent : path.current = some d.name)
    (htests : ∀ c ∈ p.constraintsFor d.name, c.Tests path d.name) :
    (p.survivors path d).outcome Engine.recorded () =
      some (.ok (d.candidates.filter fun x => ∀ c ∈ p.constraintsFor d.name,
        c.Passes path d.name x)) := by
  unfold Problem.survivors
  rw [outcome_narrow hcurrent (hp.pools d hd) htests]
  refine congrArg (some ∘ Except.ok) (List.filter_congr fun x _ => ?_)
  rw [Bool.eq_iff_iff, List.all_eq_true, decide_eq_true_iff]
  exact forall₂_congr fun c _ => Constraint.admits_iff_passes hcurrent

/-! ## Other orders of application -/

/-- The descriptor without its priority. -/
def ConstraintSpec.unranked (spec : ConstraintSpec) : ConstraintSpec :=
  { spec with priority := none }

/-- The second constraint is the first one, but for its priority. -/
def Constraint.Reranks (c c' : Constraint) : Prop := c' = { c with priority := c'.priority }

theorem Constraint.Reranks.passes {c c' : Constraint} (h : c.Reranks c') {x : Candidate} :
    c'.Passes path demand x ↔ c.Passes path demand x := by
  rw [h]
  exact Iff.rfl

theorem Constraint.Reranks.tests {c c' : Constraint} (h : c.Reranks c') (hc : c.Tests path demand) :
    c'.Tests path demand := by
  rw [h]
  exact ⟨hc.kind, hc.placed⟩

theorem Constraint.Reranks.appliesTo {c c' : Constraint} (h : c.Reranks c') :
    c'.appliesTo demand = c.appliesTo demand := by
  rw [h]
  rfl

namespace Problem

variable {p' : Problem} {specs : List ConstraintSpec}

/-- A priority decides on nothing but itself. -/
theorem buildConstraint_unranked {known : List String} {spec spec' : ConstraintSpec}
    (h : spec'.unranked = spec.unranked) (hc : buildConstraint known spec = .ok c) :
    ∃ c', buildConstraint known spec' = .ok c' ∧ c.Reranks c' := by
  obtain ⟨name, kind, demands, priority, properties⟩ := spec
  obtain ⟨name', kind', demands', priority', properties'⟩ := spec'
  simp only [ConstraintSpec.unranked, ConstraintSpec.mk.injEq, true_and] at h
  obtain ⟨rfl, rfl, rfl, rfl⟩ := h
  unfold buildConstraint Constraint.build at hc ⊢
  simp only at hc ⊢
  split at hc
  · cases hc
  · split at hc
    · cases hc
    · next k hk =>
      split at hc
      · cases hc
      · next rule hrule =>
        cases hc
        exact ⟨_, rfl, rfl⟩

/-- The problems have the same demands and, but for the priorities and the order, the same
constraints. -/
structure Reorders (p p' : Problem) : Prop where
  demands : p'.demands = p.demands
  source : ∀ c' ∈ p'.constraints, ∃ c ∈ p.constraints, c.Reranks c'
  target : ∀ c ∈ p.constraints, ∃ c' ∈ p'.constraints, c.Reranks c'

/-- A plan that is accepted is accepted with its constraints in any order and with any
priorities. -/
theorem exists_reorders (hp : ofPlan plan = .ok p)
    (hspecs : (specs.map ConstraintSpec.unranked).Perm
      (plan.constraints.map ConstraintSpec.unranked)) :
    ∃ p', ofPlan { plan with constraints := specs } = .ok p' ∧ p.Reorders p' := by
  obtain ⟨cs, o, hnames, hlocations, hcs, ho, rfl⟩ := ofPlan_ok.1 hp
  obtain ⟨hspec, hbuilt⟩ := buildConstraints_ok hcs
  have hsource : ∀ spec' ∈ specs, ∃ spec ∈ plan.constraints, spec.unranked = spec'.unranked :=
    fun spec' h => List.mem_map.1 (hspecs.mem_iff.1 (List.mem_map_of_mem h))
  have htarget : ∀ spec ∈ plan.constraints, ∃ spec' ∈ specs, spec'.unranked = spec.unranked :=
    fun spec h => List.mem_map.1 (hspecs.mem_iff.2 (List.mem_map_of_mem h))
  obtain ⟨cs', hcs'⟩ : ∃ cs', buildConstraints (plan.demands.map Demand.name) specs = .ok cs' := by
    refine (decides_buildConstraints _ specs).ok.2 fun spec' h =>
      (decides_buildConstraint _ spec').ok.1 ?_
    obtain ⟨spec, hmem, heq⟩ := hsource spec' h
    obtain ⟨c, -, hc⟩ := hspec spec hmem
    obtain ⟨c', hc', -⟩ := buildConstraint_unranked heq.symm hc
    exact ⟨c', hc'⟩
  obtain ⟨hspec', hbuilt'⟩ := buildConstraints_ok hcs'
  refine ⟨_, ofPlan_ok.2 ⟨cs', o, hnames, hlocations, hcs', ho, rfl⟩, rfl, fun c' hc' => ?_,
    fun c hc => ?_⟩
  · obtain ⟨spec', hmem', hbuild'⟩ := hbuilt' c' (List.mem_mergeSort.1 hc')
    obtain ⟨spec, hmem, heq⟩ := hsource spec' hmem'
    obtain ⟨c, hc, hbuild⟩ := hspec spec hmem
    obtain ⟨c'', hbuild'', hreranks⟩ := buildConstraint_unranked heq.symm hbuild
    cases hbuild'.symm.trans hbuild''
    exact ⟨c, List.mem_mergeSort.2 hc, hreranks⟩
  · obtain ⟨spec, hmem, hbuild⟩ := hbuilt c (List.mem_mergeSort.1 hc)
    obtain ⟨spec', hmem', heq⟩ := htarget spec hmem
    obtain ⟨c', hc', hbuild'⟩ := hspec' spec' hmem'
    obtain ⟨c'', hbuild'', hreranks⟩ := buildConstraint_unranked heq hbuild
    cases hbuild'.symm.trans hbuild''
    exact ⟨c', List.mem_mergeSort.2 hc', hreranks⟩

theorem Reorders.constraintsFor (h : p.Reorders p') (demand : String) :
    (∀ c' ∈ p'.constraintsFor demand, ∃ c ∈ p.constraintsFor demand, c.Reranks c') ∧
      ∀ c ∈ p.constraintsFor demand, ∃ c' ∈ p'.constraintsFor demand, c.Reranks c' := by
  constructor
  · intro c' hc'
    obtain ⟨hmem', happlies⟩ := List.mem_filter.1 hc'
    obtain ⟨c, hmem, hreranks⟩ := h.source c' hmem'
    exact ⟨c, List.mem_filter.2 ⟨hmem, hreranks.appliesTo.symm.trans happlies⟩, hreranks⟩
  · intro c hc
    obtain ⟨hmem, happlies⟩ := List.mem_filter.1 hc
    obtain ⟨c', hmem', hreranks⟩ := h.target c hmem
    exact ⟨c', List.mem_filter.2 ⟨hmem', hreranks.appliesTo.trans happlies⟩, hreranks⟩

/-- Against the engine that answers from the records, the candidates of a demand that survive its
constraints are those of its pool that pass each of them, as they are and in the order of the pool;
of constraints on hardware and capacity there must be none, and every sibling that a distance is
measured to must have a location. The same survive where no constraint is skipped once nothing is
left, and where the plan lists its constraints in another order or with other priorities. -/
theorem survivors_pass_all (hp : ofPlan plan = .ok p) (hd : d ∈ p.demands)
    (hcurrent : path.current = some d.name)
    (htests : ∀ c ∈ p.constraintsFor d.name, c.Tests path d.name) :
    (p.survivors path d).outcome Engine.recorded () =
        some (.ok (d.candidates.filter fun x => ∀ c ∈ p.constraintsFor d.name,
          c.Passes path d.name x)) ∧
      (narrowThroughout path (p.constraintsFor d.name) d.candidates).outcome Engine.recorded () =
        (p.survivors path d).outcome Engine.recorded () ∧
      ∀ specs, (specs.map ConstraintSpec.unranked).Perm
        (plan.constraints.map ConstraintSpec.unranked) →
        ∃ p', ofPlan { plan with constraints := specs } = .ok p' ∧ p'.demands = p.demands ∧
          (p'.survivors path d).outcome Engine.recorded () =
            (p.survivors path d).outcome Engine.recorded () := by
  have hwf := ofPlan_wellFormed hp
  have hids := hwf.pools d hd
  refine ⟨outcome_survivors hwf hd hcurrent htests, ?_, fun specs hspecs => ?_⟩
  · unfold survivors
    rw [outcome_narrowThroughout hcurrent hids htests, outcome_narrow hcurrent hids htests]
  · obtain ⟨p', hp', hreorders⟩ := exists_reorders hp hspecs
    obtain ⟨hsource, htarget⟩ := hreorders.constraintsFor d.name
    have hd' : d ∈ p'.demands := hreorders.demands ▸ hd
    have htests' : ∀ c' ∈ p'.constraintsFor d.name, c'.Tests path d.name := by
      intro c' hc'
      obtain ⟨c, hc, hreranks⟩ := hsource c' hc'
      exact hreranks.tests (htests c hc)
    refine ⟨p', hp', hreorders.demands, ?_⟩
    rw [outcome_survivors (ofPlan_wellFormed hp') hd' hcurrent htests',
      outcome_survivors hwf hd hcurrent htests]
    refine congrArg (some ∘ Except.ok) (List.filter_congr fun x _ => decide_eq_decide.2 ?_)
    constructor
    · intro h c hc
      obtain ⟨c', hc', hreranks⟩ := htarget c hc
      exact hreranks.passes.1 (h c' hc')
    · intro h c' hc'
      obtain ⟨c, hc, hreranks⟩ := hsource c' hc'
      exact hreranks.passes.2 (h c hc)

end Problem

/-! ## A pool of which some survive -/

/-- The plan of two sites with a candidate of the second that is too dear and one about which
nothing is known. -/
def Plan.mixedSites : Plan :=
  { Plan.twoSites with
    demands :=
      [⟨"a", [.eastern "a1" 3.0, .eastern "a2" 1.0], 0⟩,
        ⟨"b", [.eastern "b1" 3.0, ⟨"b2", "inventory", "cloud", 1.0, []⟩, .eastern "b3" 2.0,
          .eastern "b4" 1.0], 0⟩] }

def Problem.mixedSites : Problem := { Problem.twoSites with demands := Plan.mixedSites.demands }

theorem Problem.ofPlan_mixedSites : Problem.ofPlan .mixedSites = .ok .mixedSites :=
  Problem.ofPlan_sorted rfl rfl rfl rfl (by decide) (by decide)

/-- The first site is committed and the second under resolution. -/
def Path.halfway : Path := { holding [("a", .eastern "a2" 1.0)] with current := some "b" }

theorem Constraint.tests_halfway :
    ∀ c ∈ Problem.mixedSites.constraintsFor "b", c.Tests .halfway "b" := by
  have hkinds : ∀ c ∈ Problem.mixedSites.constraintsFor "b", c.kind ≠ .hpa ∧ c.kind ≠ .vimFit := by
    decide
  intro c hc
  refine ⟨hkinds c hc, ?_⟩
  rintro - y ⟨e, -, -, he⟩
  have hy : y = .eastern "a2" 1.0 := by
    have hlookup := (Path.decided_holding [("a", .eastern "a2" 1.0)] e).symm.trans he
    rw [List.lookup_cons] at hlookup
    split at hlookup
    · exact (Option.some.inj hlookup).symm
    · cases hlookup
  rw [hy]
  decide +kernel

theorem Problem.survivors_pass_all_mixedSites :
    ∃ d out, Problem.mixedSites.demands[1]? = some d ∧
      (Problem.mixedSites.survivors .halfway d).outcome Engine.recorded () = some (.ok out) ∧
      out.map Candidate.id = ["b3", "b4"] ∧
      ∃ p', ofPlan { Plan.mixedSites with
            constraints := Plan.mixedSites.constraints.reverse.map fun spec =>
              { spec with priority := some 0 } } = .ok p' ∧
        (p'.survivors .halfway d).outcome Engine.recorded () = some (.ok out) := by
  obtain ⟨hsurvivors, -, horder⟩ := Problem.survivors_pass_all Problem.ofPlan_mixedSites
    (d := Problem.mixedSites.demands[1]) (List.getElem_mem _) rfl Constraint.tests_halfway
  obtain ⟨p', hp', -, hsame⟩ := horder
    (Plan.mixedSites.constraints.reverse.map fun spec => { spec with priority := some 0 }) (by
      rw [List.map_map]
      exact (List.reverse_perm _).map _)
  exact ⟨_, _, rfl, hsurvivors, by decide +kernel, p', hp', hsame.trans hsurvivors⟩

end Placement
