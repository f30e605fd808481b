import Placement.Proofs.Constraint.WellFormed
import Placement.Proofs.Objective.WellFormed
import Placement.Proofs.Problem

/-!
# Which plans are accepted

A plan is accepted exactly if it is well formed: no two demands share a name, all places are on the
globe, and the constraints and the objective are well formed over these demands and places. Any
other plan is refused for its first fault in this order, in which only the places are not ordered
among themselves.
-/

namespace Placement

/-! ## Places -/

/-- Finite and in range. -/
structure Location.OnGlobe (l : Location) : Prop where
  latitude : l.latitude.isFinite = true ∧ -90.0 ≤ l.latitude ∧ l.latitude ≤ 90.0
  longitude : l.longitude.isFinite = true ∧ -180.0 ≤ l.longitude ∧ l.longitude ≤ 180.0

theorem Location.isValid_iff {l : Location} : l.isValid = true ↔ l.OnGlobe := by
  unfold isValid
  simp only [Bool.and_eq_true, decide_eq_true_eq]
  exact ⟨fun h => ⟨h.1, h.2⟩, fun h => ⟨h.latitude, h.longitude⟩⟩

theorem Location.decides_check (l : Location) :
    Decides l.check l.OnGlobe fun e => ¬l.OnGlobe ∧
      e = .invalidCoordinates l.latitude l.longitude := by
  rw [← isValid_iff]
  exact .ite _ _

/-! ## Plans -/

namespace Plan

def names (plan : Plan) : List String := plan.demands.map Demand.name

/-- What the objective may reference. -/
def scope (plan : Plan) : Scope := ⟨plan.names, plan.atlas.locations⟩

structure WellFormed (plan : Plan) : Prop where
  names : plan.names.Nodup
  locations : ∀ place ∈ plan.atlas.locations, place.2.OnGlobe
  constraints : ∀ spec ∈ plan.constraints, spec.WellFormed plan.names
  objective : plan.objective.operation.WellFormed plan.scope

/-- The first fault of a plan. Where several places are not on the globe, each of them is a first
one. -/
inductive FirstFault (plan : Plan) : SolveError → Prop
  | demand {before rest : List String} {d : String} (hnames : plan.names = before ++ d :: rest)
      (hbefore : before.Nodup) (hd : d ∈ before) : FirstFault plan (.record (.duplicateDemand d))
  | location {place : String × Location} (hnames : plan.names.Nodup)
      (hplace : place ∈ plan.atlas.locations) (h : ¬place.2.OnGlobe) :
      FirstFault plan (.record (.invalidCoordinates place.2.latitude place.2.longitude))
  | constraint {before rest : List ConstraintSpec} {spec : ConstraintSpec} {e : SolveError}
      (hnames : plan.names.Nodup) (hlocations : ∀ place ∈ plan.atlas.locations, place.2.OnGlobe)
      (hspecs : plan.constraints = before ++ spec :: rest)
      (hbefore : ∀ b ∈ before, b.WellFormed plan.names) (h : spec.FirstFault plan.names e) :
      FirstFault plan e
  | objective {e : SolveError} (hnames : plan.names.Nodup)
      (hlocations : ∀ place ∈ plan.atlas.locations, place.2.OnGlobe)
      (hconstraints : ∀ spec ∈ plan.constraints, spec.WellFormed plan.names)
      (h : plan.objective.operation.FirstFault plan.scope e) : FirstFault plan e

end Plan

namespace Problem

theorem decides_checkLocations : ∀ places : Table Location,
    Decides (checkLocations places) (∀ place ∈ places, place.2.OnGlobe)
      (FirstOf (fun place => place.2.OnGlobe) (fun place e => ∃ e', (¬place.2.OnGlobe ∧
        e' = .invalidCoordinates place.2.latitude place.2.longitude) ∧ e = .record e') places)
  | [] => .nil _
  | (name, l) :: places => by
    have hcheck : checkLocations ((name, l) :: places) =
        (l.check.mapError .record) >>= fun _ => checkLocations places := by
      rw [checkLocations]
      cases l.check <;> rfl
    rw [hcheck]
    exact (l.decides_check.mapError _).cons fun _ _ => decides_checkLocations places

theorem decides_buildObjective (s : Scope) (spec : ObjectiveSpec) :
    Decides (Objective.build s spec) (spec.operation.WellFormed s) (spec.operation.FirstFault s) :=
  (Term.decides_buildOperation spec.operation).bind_pure fun r => Objective.mk spec.goal r.1 r.2

/-- A plan is accepted exactly if it is well formed, and otherwise refused for its first fault,
which is the only one unless a place is at fault. -/
theorem ofPlan_accepts_wellFormed (plan : Plan) :
    ((∃ p, ofPlan plan = .ok p) ↔ plan.WellFormed) ∧
      (∀ e, ofPlan plan = .error e → plan.FirstFault e) ∧
      ∀ e, plan.FirstFault e → (∀ place ∈ plan.atlas.locations, place.2.OnGlobe) →
        ofPlan plan = .error e := by
  have hdecides : Decides (ofPlan plan) _ _ := (decides_checkDistinct [] plan.names).bind fun _ _ =>
    (decides_checkLocations plan.atlas.locations).bind fun _ _ =>
      (decides_buildConstraints plan.names plan.constraints).bind fun cs _ =>
        (decides_buildObjective plan.scope plan.objective).bind_pure _
  refine ⟨hdecides.ok.trans ⟨?_, fun h => ?_⟩, fun e he => ?_,
    fun e he hplaces => (hdecides.error e).2 ?_⟩
  · rintro ⟨⟨hnames, -⟩, hlocations, hconstraints, hobjective⟩
    exact ⟨hnames, hlocations, hconstraints, hobjective⟩
  · exact ⟨⟨h.names, fun _ _ => List.not_mem_nil⟩, h.locations, h.constraints, h.objective⟩
  · rcases (hdecides.error e).1 he with ⟨d, ⟨before, rest, hnames, hbefore, -, hd⟩, rfl⟩ |
      ⟨⟨hnames, -⟩, he⟩
    · exact .demand hnames hbefore (hd.resolve_left List.not_mem_nil)
    rcases he with ⟨before, place, rest, hplaces, -, e', ⟨hplace, rfl⟩, rfl⟩ | ⟨hlocations, he⟩
    · exact .location hnames (by simp [hplaces]) hplace
    rcases he with ⟨before, spec, rest, hspecs, hbefore, hspec⟩ | ⟨hconstraints, he⟩
    · exact .constraint hnames hlocations hspecs hbefore hspec
    · exact .objective hnames hlocations hconstraints he
  · have hseen : ∀ d ∈ plan.names, d ∉ [] := fun _ _ => List.not_mem_nil
    cases he with
    | demand hnames hbefore hd =>
      exact .inl ⟨_, ⟨_, _, hnames, hbefore, fun _ _ => List.not_mem_nil, .inr hd⟩, rfl⟩
    | location hnames hplace h => exact absurd (hplaces _ hplace) h
    | constraint hnames hlocations hspecs hbefore h =>
      exact .inr ⟨⟨hnames, hseen⟩, .inr ⟨hlocations, .inl ⟨_, _, _, hspecs, hbefore, h⟩⟩⟩
    | objective hnames hlocations hconstraints h =>
      exact .inr ⟨⟨hnames, hseen⟩, .inr ⟨hlocations, .inr ⟨hconstraints, h⟩⟩⟩

end Problem

/-! ## A plan with several faults -/

/-- The plan of two sites with a type that is not known, a demand that is not known, and deep in its
objective a function that is not known before an operand that is none. -/
def Plan.faultySites : Plan :=
  { Plan.twoSites with
    constraints := Plan.twoSites.constraints ++
      [⟨"odd", "latency", ["a"], none, .null⟩, ⟨"far", "zone", ["c"], none, .null⟩]
    objective := ⟨.minimize, .mk "sum"
      [.mk none none (some (.mk "avg" [.mk (some "cost") (some { demand := some "b" }) none {},
        .mk (some "price") none none {}])) {}, .mk none none none {}]⟩ }

theorem Problem.ofPlan_accepts_wellFormed_faultySites :
    Plan.twoSites.WellFormed ∧
    Plan.faultySites.FirstFault (.unknownConstraintType "odd" "latency") ∧
      ofPlan { Plan.faultySites with constraints := [] } = .error (.unknownFunction "price") := by
  obtain ⟨haccepts, -, -⟩ := ofPlan_accepts_wellFormed .twoSites
  obtain ⟨-, hrefuses, -⟩ := ofPlan_accepts_wellFormed .faultySites
  obtain ⟨-, -, hfirst⟩ := ofPlan_accepts_wellFormed { Plan.faultySites with constraints := [] }
  have hproper : ({} : Scale).Proper := ⟨fun _ h => (nomatch h), fun _ h => (nomatch h)⟩
  have hunknown : ∀ f : Measure, f.name ≠ "price" := fun f => by cases f <;> decide
  have hcost : Scope.Resolves (Plan.scope { Plan.faultySites with constraints := [] }) "cost"
      { demand := some "b" } :=
    ⟨⟨.cost, rfl, by simp, rfl⟩, by decide, fun _ h => nomatch h⟩
  refine ⟨haccepts.1 ⟨_, ofPlan_twoSites⟩, hrefuses _ rfl, hfirst _ ?_ (List.forall_mem_nil _)⟩
  refine .objective (by decide) (List.forall_mem_nil _) (List.forall_mem_nil _) ?_
  refine .operand ⟨.sum, by decide⟩ (List.nil_append _).symm (List.forall_mem_nil _)
    (.node hproper ?_)
  exact .operand ⟨.average, by decide⟩ (List.singleton_append).symm
    (List.forall_mem_singleton.2 (.leaf hproper hcost))
    (.leaf hproper (.function hunknown))

end Placement
