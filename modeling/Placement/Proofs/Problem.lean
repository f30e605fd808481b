import Mathlib.Data.List.Forall2
import Placement.Problem
import Placement.Proofs.Constraint.Scope
import Placement.Proofs.Objective.Leaves

/-!
# What an accepted plan guarantees

`Problem.WellFormed` is what the checks on a plan establish, in terms of the problem alone: names
that differ, pools in which ids differ, scopes and leaves over known demands. Searches rely on
nothing else about the plan a problem comes from.
-/

namespace Placement

/-- The names of the demands, in the order in which they are resolved. -/
def Problem.names (p : Problem) : List String := p.demands.map Demand.name

structure Problem.WellFormed (p : Problem) : Prop where
  names : p.names.Nodup
  pools : ∀ d ∈ p.demands, (d.candidates.map Candidate.id).Nodup
  scopes : ∀ c ∈ p.constraints, ∀ d ∈ c.demands, d ∈ p.names
  leaves : ∀ l ∈ Term.leavesAll p.objective.operands, Scope.Allows ⟨p.names, p.atlas.locations⟩ l

/-! ## Pools -/

namespace Demand

theorem mem_firstById {x : Candidate} :
    ∀ {pool : List Candidate} {seen : List String}, x ∈ firstById seen pool → x ∈ pool ∧ x.id ∉ seen
  | [], _, h => by cases h
  | y :: pool, seen, h => by
    unfold firstById at h
    split at h
    · obtain ⟨hx, hseen⟩ := mem_firstById h
      exact ⟨List.mem_cons_of_mem _ hx, hseen⟩
    · next hy =>
      rcases List.mem_cons.1 h with rfl | h
      · exact ⟨List.mem_cons_self, hy⟩
      · obtain ⟨hx, hseen⟩ := mem_firstById h
        exact ⟨List.mem_cons_of_mem _ hx, fun hm => hseen (List.mem_cons_of_mem _ hm)⟩

theorem nodup_firstById :
    ∀ (pool : List Candidate) (seen : List String), ((firstById seen pool).map Candidate.id).Nodup
  | [], _ => List.nodup_nil
  | y :: pool, seen => by
    unfold firstById
    split
    · exact nodup_firstById pool seen
    · refine List.nodup_cons.2 ⟨fun h => ?_, nodup_firstById pool _⟩
      obtain ⟨x, hx, hid⟩ := List.mem_map.1 h
      exact (mem_firstById hx).2 (hid ▸ List.mem_cons_self)

end Demand

namespace Problem

/-! ## Names and constraints of a plan -/

/-- The name stands among those seen or a second time in the list, and those before it do not. -/
def FirstRepeat (seen ds : List String) (d : String) : Prop :=
  ∃ before rest, ds = before ++ d :: rest ∧ before.Nodup ∧ (∀ b ∈ before, b ∉ seen) ∧
    (d ∈ seen ∨ d ∈ before)

theorem firstRepeat_cons {seen ds : List String} {d e : String} : FirstRepeat seen (d :: ds) e ↔
    d ∈ seen ∧ e = d ∨ d ∉ seen ∧ FirstRepeat (d :: seen) ds e := by
  constructor
  · rintro ⟨before, rest, h, hnodup, hbefore, he⟩
    cases before with
    | nil =>
      cases h
      exact .inl ⟨he.resolve_right (List.not_mem_nil), rfl⟩
    | cons b before =>
      cases h
      obtain ⟨hd, hbefore⟩ := List.forall_mem_cons.1 hbefore
      obtain ⟨hfresh, hnodup⟩ := List.nodup_cons.1 hnodup
      refine .inr ⟨hd, before, rest, rfl, hnodup, fun b hb hmem => ?_, ?_⟩
      · rcases List.mem_cons.1 hmem with rfl | hmem
        · exact hfresh hb
        · exact hbefore b hb hmem
      · rcases he with he | he
        · exact .inl (List.mem_cons_of_mem _ he)
        · rcases List.mem_cons.1 he with rfl | he
          · exact .inl List.mem_cons_self
          · exact .inr he
  · rintro (⟨hd, rfl⟩ | ⟨hd, before, rest, rfl, hnodup, hbefore, he⟩)
    · exact ⟨[], ds, rfl, List.nodup_nil, List.forall_mem_nil _, .inl hd⟩
    · have hfresh : d ∉ before := fun hmem => hbefore d hmem List.mem_cons_self
      refine ⟨d :: before, rest, rfl, List.nodup_cons.2 ⟨hfresh, hnodup⟩, ?_, ?_⟩
      · exact List.forall_mem_cons.2 ⟨hd,
          fun b hb hmem => hbefore b hb (List.mem_cons_of_mem _ hmem)⟩
      · rcases he with he | he
        · rcases List.mem_cons.1 he with rfl | he
          · exact .inr List.mem_cons_self
          · exact .inl he
        · exact .inr (List.mem_cons_of_mem _ he)

theorem decides_checkDistinct : ∀ seen ds : List String,
    Decides (checkDistinct seen ds) (ds.Nodup ∧ ∀ d ∈ ds, d ∉ seen)
      fun e => ∃ d, FirstRepeat seen ds d ∧ e = .record (.duplicateDemand d)
  | seen, [] => by
    refine (Decides.of_ok _).congr (iff_of_true trivial ⟨List.nodup_nil, List.forall_mem_nil _⟩)
      fun e => iff_of_false id ?_
    rintro ⟨d, ⟨before, rest, h, -⟩, -⟩
    exact List.append_ne_nil_of_right_ne_nil _ (List.cons_ne_nil _ _) h.symm
  | seen, d :: ds => by
    unfold checkDistinct
    split
    · next hd =>
      refine (Decides.of_error _).congr (iff_of_false id fun h => h.2 d List.mem_cons_self hd)
        fun e => ⟨?_, ?_⟩
      · rintro rfl
        exact ⟨d, firstRepeat_cons.2 (.inl ⟨hd, rfl⟩), rfl⟩
      · rintro ⟨d', h, rfl⟩
        rcases firstRepeat_cons.1 h with ⟨-, rfl⟩ | ⟨hnot, -⟩
        · rfl
        · exact absurd hd hnot
    · next hd =>
      -- `d` joins those seen: what repeats in the rest beside them is what repeats in the whole
      -- list.
      refine (decides_checkDistinct (d :: seen) ds).congr ?_ fun e =>
        exists_congr fun d' => and_congr_left fun _ => ?_
      · rw [List.nodup_cons, List.forall_mem_cons]
        constructor
        · rintro ⟨hnodup, hseen⟩
          exact ⟨⟨fun hmem => hseen d hmem List.mem_cons_self, hnodup⟩, hd,
            fun e he hmem => hseen e he (List.mem_cons_of_mem _ hmem)⟩
        · rintro ⟨⟨hfresh, hnodup⟩, -, hseen⟩
          refine ⟨hnodup, fun e he hmem => ?_⟩
          rcases List.mem_cons.1 hmem with rfl | hmem
          · exact hfresh he
          · exact hseen e he hmem
      · rw [firstRepeat_cons, or_iff_right fun h => hd h.1, and_iff_right hd]

theorem buildConstraint_ok {known : List String} {spec : ConstraintSpec} {c : Constraint}
    (h : buildConstraint known spec = .ok c) :
    Constraint.build spec = .ok c ∧ ∀ d ∈ spec.demands, d ∈ known := by
  unfold buildConstraint at h
  split at h
  · cases h
  · next hnone =>
    refine ⟨h, fun d hd => ?_⟩
    simpa using List.find?_eq_none.1 hnone d hd

/-- The constraints are built one by one from the descriptors in their order. -/
theorem buildConstraints_iff {known : List String} :
    ∀ {specs : List ConstraintSpec} {cs : List Constraint},
    buildConstraints known specs = .ok cs ↔
      List.Forall₂ (fun spec c => buildConstraint known spec = .ok c) specs cs
  | [], cs => by
    rw [List.forall₂_nil_left_iff, buildConstraints]
    exact ⟨fun h => (Except.ok.inj h).symm, fun h => h ▸ rfl⟩
  | spec :: specs, cs => by
    rw [List.forall₂_cons_left_iff, buildConstraints]
    constructor
    · intro h
      obtain ⟨c, hc, h⟩ := (except_bind_ok _ _ _).1 h
      obtain ⟨cs', hcs, h⟩ := (except_bind_ok _ _ _).1 h
      exact ⟨c, cs', hc, buildConstraints_iff.1 hcs, (Except.ok.inj h).symm⟩
    · rintro ⟨c, cs', hc, hcs, rfl⟩
      exact (except_bind_ok _ _ _).2 ⟨c, hc,
        (except_bind_ok _ _ _).2 ⟨cs', buildConstraints_iff.2 hcs, rfl⟩⟩

theorem buildConstraints_ok {known : List String} {specs : List ConstraintSpec}
    {cs : List Constraint} (h : buildConstraints known specs = .ok cs) :
    (∀ spec ∈ specs, ∃ c ∈ cs, buildConstraint known spec = .ok c) ∧
      ∀ c ∈ cs, ∃ spec ∈ specs, buildConstraint known spec = .ok c := by
  induction buildConstraints_iff.1 h with
  | nil => exact ⟨List.forall_mem_nil _, List.forall_mem_nil _⟩
  | @cons spec c specs cs hc hcs ih =>
    obtain ⟨hspecs, hbuilt⟩ := ih (buildConstraints_iff.2 hcs)
    refine ⟨List.forall_mem_cons.2 ⟨⟨c, List.mem_cons_self, hc⟩, fun spec' hspec => ?_⟩,
      List.forall_mem_cons.2 ⟨⟨spec, List.mem_cons_self, hc⟩, fun c' hc' => ?_⟩⟩
    · obtain ⟨c', hc', hbuild⟩ := hspecs spec' hspec
      exact ⟨c', List.mem_cons_of_mem _ hc', hbuild⟩
    · obtain ⟨spec', hspec, hbuild⟩ := hbuilt c' hc'
      exact ⟨spec', List.mem_cons_of_mem _ hspec, hbuild⟩

/-! ## Acceptance -/

variable {plan : Plan} {p : Problem}

theorem ofPlan_ok : ofPlan plan = .ok p ↔
    ∃ cs o, checkDistinct [] (plan.demands.map Demand.name) = .ok () ∧
      checkLocations plan.atlas.locations = .ok () ∧
      buildConstraints (plan.demands.map Demand.name) plan.constraints = .ok cs ∧
      Objective.build ⟨plan.demands.map Demand.name, plan.atlas.locations⟩ plan.objective = .ok o ∧
      p = ⟨processingOrder (plan.demands.map Demand.cleaned), applicationOrder cs, o,
        plan.atlas⟩ := by
  unfold ofPlan
  constructor
  · intro h
    obtain ⟨⟨⟩, hnames, h⟩ := (except_bind_ok _ _ _).1 h
    obtain ⟨⟨⟩, hlocations, h⟩ := (except_bind_ok _ _ _).1 h
    obtain ⟨cs, hcs, h⟩ := (except_bind_ok _ _ _).1 h
    obtain ⟨o, ho, h⟩ := (except_bind_ok _ _ _).1 h
    cases h
    exact ⟨cs, o, hnames, hlocations, hcs, ho, rfl⟩
  · rintro ⟨cs, o, hnames, hlocations, hcs, ho, rfl⟩
    refine (except_bind_ok _ _ _).2 ⟨(), hnames, (except_bind_ok _ _ _).2 ⟨(), hlocations, ?_⟩⟩
    exact (except_bind_ok _ _ _).2 ⟨cs, hcs, (except_bind_ok _ _ _).2 ⟨o, ho, rfl⟩⟩

/-- What stands in order already is resolved and applied in that order. -/
theorem ofPlan_sorted {cs : List Constraint} {o : Objective}
    (hnames : checkDistinct [] (plan.demands.map Demand.name) = .ok ())
    (hlocations : checkLocations plan.atlas.locations = .ok ())
    (hcs : buildConstraints (plan.demands.map Demand.name) plan.constraints = .ok cs)
    (ho : Objective.build ⟨plan.demands.map Demand.name, plan.atlas.locations⟩ plan.objective =
      .ok o)
    (hdemands : (plan.demands.map Demand.cleaned).Pairwise fun a b =>
      decide (a.sortKey ≤ b.sortKey) = true)
    (hconstraints : cs.Pairwise fun a b => decide (a.priority ≤ b.priority) = true) :
    ofPlan plan = .ok ⟨plan.demands.map Demand.cleaned, cs, o, plan.atlas⟩ := by
  refine ofPlan_ok.2 ⟨cs, o, hnames, hlocations, hcs, ho, ?_⟩
  unfold processingOrder applicationOrder
  rw [List.mergeSort_of_pairwise hdemands, List.mergeSort_of_pairwise hconstraints]

/-- The order of resolution is an order of the plan's demands. -/
theorem names_perm (h : ofPlan plan = .ok p) : p.names.Perm (plan.demands.map Demand.name) := by
  obtain ⟨cs, o, -, -, -, -, rfl⟩ := ofPlan_ok.1 h
  have hperm := (List.mergeSort_perm (plan.demands.map Demand.cleaned)
    fun a b => decide (a.sortKey ≤ b.sortKey)).map Demand.name
  rw [List.map_map] at hperm
  exact hperm

theorem ofPlan_wellFormed (h : ofPlan plan = .ok p) : p.WellFormed := by
  have hperm := names_perm h
  obtain ⟨cs, o, hnames, -, hcs, ho, rfl⟩ := ofPlan_ok.1 h
  refine ⟨hperm.nodup_iff.2 ((decides_checkDistinct _ _).ok.1 ⟨_, hnames⟩).1, ?_, ?_, ?_⟩
  · intro d hd
    obtain ⟨d', -, rfl⟩ := List.mem_map.1 (List.mem_mergeSort.1 hd)
    exact Demand.nodup_firstById _ _
  · intro c hc d hd
    have hc := List.mem_mergeSort.1 hc
    obtain ⟨spec, -, hspec⟩ := (buildConstraints_ok hcs).2 c hc
    obtain ⟨hbuild, hknown⟩ := buildConstraint_ok hspec
    obtain ⟨kind, -, -, -, hdemands⟩ := Constraint.build_ok hbuild
    exact hperm.mem_iff.2 (hknown d (hdemands ▸ hd))
  · intro l hl
    have hallows := Objective.build_allows ho l hl
    exact ⟨hallows.shape, fun d hd => hperm.mem_iff.2 (hallows.demands d hd), hallows.location⟩

/-- Every constraint of the plan is applied as the one it describes. -/
theorem exists_constraint (h : ofPlan plan = .ok p) {spec : ConstraintSpec}
    (hspec : spec ∈ plan.constraints) :
    ∃ c ∈ p.constraints, Constraint.build spec = .ok c := by
  obtain ⟨cs, o, -, -, hcs, -, rfl⟩ := ofPlan_ok.1 h
  obtain ⟨c, hc, hbuild⟩ := (buildConstraints_ok hcs).1 spec hspec
  exact ⟨c, List.mem_mergeSort.2 hc, (buildConstraint_ok hbuild).1⟩

end Problem

/-! ## A plan of two sites -/

/-- A candidate in the east that has a flavor and a controller. -/
def Candidate.eastern (id : String) (cost : Float) : Candidate where
  id := id
  provider := "inventory"
  inventoryType := "cloud"
  cost := cost
  attributes :=
    [("flavors", .object [("small", .object [])]), ("latitude", .real 40.0),
      ("longitude", .real 20.0), ("region", .string "east"),
      ("service_controllers", .array [.string "sdn"])]

/-- Two demands under constraints of all kinds but capacity. -/
def Plan.twoSites : Plan where
  demands :=
    [⟨"a", [.eastern "a1" 3.0, .eastern "a2" 1.0], 0⟩,
      ⟨"b", [.eastern "b1" 1.0, .eastern "b2" 1.0], 0⟩]
  constraints :=
    [⟨"fast", "hpa", ["a"], none,
        .object [("evaluate", .array [.object [("id", .string "vm"), ("type", .string "vnfc")]])]⟩,
      ⟨"served", "service", ["a"], none,
        .object [("controller", .string "sdn"), ("inventory_type", .string "cloud")]⟩,
      ⟨"placed", "attribute", ["b"], none,
        .object [("evaluate", .object [("region", .array [.string "east"])])]⟩,
      ⟨"cheap", "threshold", ["a", "b"], none,
        .object [("attribute", .string "cost"), ("operator", .string "lte"),
          ("threshold", .real 2.0)]⟩,
      ⟨"joined", "zone", ["a", "b"], none,
        .object [("category", .string "region"), ("qualifier", .string "same")]⟩,
      ⟨"near", "distance_between_demands", ["a", "b"], none,
        .object [("distance", .object [("operator", .string "lte"), ("value", .real 100.0)])]⟩,
      ⟨"modest", "aggregation", ["a", "b"], none,
        .object [("evaluate",
          .array [.object [("attribute", .string "cost"), ("function", .string "sum"),
            ("operator", .string "lte"), ("threshold", .real 3.0)]])]⟩]
  objective :=
    ⟨.minimize, .mk "sum" [.mk (some "cost") (some { demand := some "a" }) none {},
      .mk (some "cost") (some { demand := some "b" }) none {}]⟩
  atlas := {}

def Problem.twoSites : Problem where
  demands := Plan.twoSites.demands
  constraints :=
    [⟨"fast", ["a"], 2, .hpa [⟨"vm", "vnfc", [], []⟩]⟩,
      ⟨"served", ["a"], 3, .service "sdn" "cloud" .null 0.0⟩,
      ⟨"placed", ["b"], 4, .attributes [("region", .array [.string "east"])]⟩,
      ⟨"cheap", ["a", "b"], 5, .threshold "cost" .lte 2.0⟩,
      ⟨"joined", ["a", "b"], 6, .zone .same "region"⟩,
      ⟨"near", ["a", "b"], 7, .distance ⟨100.0, .lte, .km⟩⟩,
      ⟨"modest", ["a", "b"], 8, .aggregation [⟨"cost", .sum, .lte, 3.0⟩]⟩]
  objective :=
    ⟨.minimize, .sum,
      [.leaf .cost { demand := some "a" } {}, .leaf .cost { demand := some "b" } {}]⟩
  atlas := {}

theorem Problem.ofPlan_twoSites : Problem.ofPlan .twoSites = .ok .twoSites :=
  Problem.ofPlan_sorted rfl rfl rfl rfl (by decide) (by decide)

end Placement
