import Placement.Proofs.Constraint.Meaning
import Placement.Proofs.Search.Run

/-!
# Soundness of the greedy search

Against the engine that answers from the records, every commitment of a greedy run has passed the
tests of the constraints on its demand, on the commitments before it, and commitments are final. So
on a path that is returned every constraint of the plan holds.
-/

namespace Placement

open Solving Greedy

variable {plan : Plan} {p : Problem} {path : Path} {done : List Demand} {log : List Exchange}

/-- The test of a candidate sees the path of the earlier commitments. -/
theorem seesAlike_before (h : path.Agrees) (c : Constraint) (demand : String) :
    c.SeesAlike (path.resolving demand) (Path.before path.committed demand) := by
  have hnodup := h.fixed
  rw [← h.map_fst_committed] at hnodup
  exact .of_committed h.map_fst_committed (Path.holding_spec hnodup).2 rfl

/-- Wherever a run gets, all constraints have been tested on the commitments so far. -/
theorem Greedy.Reaches.testedOn (hp : p.WellFormed) (h : Reaches p done log path)
    (hdone : ∀ d ∈ done, d ∈ p.demands) (ha : Engine.recorded.Answers log) :
    ∀ c ∈ p.constraints, c.TestedOn path := by
  induction h with
  | start =>
    intro c _ pre d x post hsplit
    cases pre <;> cases hsplit
  | @round done d log log' path path' hreaches hround ih =>
    obtain ⟨ha₀, ha₁⟩ := Engine.answers_append.1 ha
    have hd : d ∈ p.demands := hdone d (List.mem_append_right _ List.mem_cons_self)
    obtain ⟨log₁, log₂, pool, r, w, rfl, hpool, -, -, hw, hcommits⟩ := commits_of_round hround
    obtain ⟨-, hadmits⟩ := admits_of_narrow (hp.pools d hd) hpool (Engine.answers_append.1 ha₁).1
    intro c hc pre e x post hsplit he
    have hcommitted : path.committed ++ [(d.name, w)] = pre ++ (e, x) :: post :=
      hcommits.committed.symm.trans hsplit
    rcases List.eq_nil_or_concat post with rfl | ⟨post, last, rfl⟩
    · obtain ⟨rfl, hlast⟩ := List.append_inj' hcommitted rfl
      cases hlast
      have happlies : c ∈ p.constraintsFor d.name :=
        List.mem_filter.2 ⟨hc, List.contains_iff_mem.2 he⟩
      rw [Constraint.admits_congr (seesAlike_before hreaches.stands.agrees c d.name)]
      exact hadmits c happlies w hw
    · rw [List.concat_eq_append, ← List.cons_append, ← List.append_assoc] at hcommitted
      obtain ⟨hbefore, -⟩ := List.append_inj' hcommitted rfl
      exact ih (fun d hd => hdone d (List.mem_append_left _ hd)) ha₀ c hc pre e x post hbefore he

/-- On a path that the greedy search returns, against the engine that answers from the records,
every constraint of the plan holds. -/
theorem Problem.greedy_sound (hp : Problem.ofPlan plan = .ok p)
    (h : p.greedy.outcome Engine.recorded () = some (.ok (some path))) :
    ∀ spec ∈ plan.constraints, ∃ c ∈ p.constraints, Constraint.build spec = .ok c ∧
      c.HoldsOn path := by
  have hwf := Problem.ofPlan_wellFormed hp
  obtain ⟨log, h, ha⟩ := (outcome_iff Engine.stateless_recorded).1 h
  have hreaches := ends_rounds_some.1 h
  have hnames : path.committed.map Prod.fst = p.names := hreaches.stands.names
  intro spec hspec
  obtain ⟨c, hc, hbuild⟩ := Problem.exists_constraint hp hspec
  have htested := hreaches.testedOn hwf (fun d hd => hd) ha c hc
  refine ⟨c, hc, hbuild, htested.holdsOn ?_ ?_ (Constraint.exists_two_of_build hbuild)⟩
  · rw [hnames]
    exact hwf.names
  · intro d hd
    rw [hnames]
    exact hwf.scopes c hc d hd

theorem Problem.greedy_sound_twoSites :
    ∃ path, Problem.twoSites.greedy.outcome Engine.recorded () = some (.ok (some path)) ∧
      path.trace = "a:a2>b:b1>" ∧
      ∀ spec ∈ Plan.twoSites.constraints, ∃ c ∈ Problem.twoSites.constraints,
        Constraint.build spec = .ok c ∧ c.HoldsOn path := by
  obtain ⟨path, h, htrace⟩ := exists_path (o := Problem.twoSites.greedy.outcome Engine.recorded ())
    (fun path => path.trace == "a:a2>b:b1>") (by decide +kernel)
  exact ⟨path, h, eq_of_beq htrace, Problem.greedy_sound Problem.ofPlan_twoSites h⟩

end Placement
