import Placement.Engine.Recorded
import Placement.Proofs.Engine.Calls
import Placement.Proofs.Problem
import Placement.Proofs.Search.RandomPick

/-!
# What random picks come to

Whether there is a path, and which candidates are on it, is settled by the pools and the choices
before the engine is asked anything. The constraints have no part in it. What the engine is asked
and what it answers show in the score, and there only as they do in one evaluation of the objective
on all the picks.
-/

namespace Placement

open Solving

namespace RandomPick

variable {σ : Type} {engine : Engine σ} {s : σ} {p : Problem} {choices : Choices}
  {es : List (String × Candidate)}

/-- The path of some picks with their score, or with zero where there is none. -/
def picked (es : List (String × Candidate)) : Except SolveError Float → Path
  | .ok v => { Path.holding es with cumulatedValue := v, totalValue := v + 0.0 }
  | .error _ => .holding es

theorem withScore_picks (r : Except SolveError Float) :
    (Path.holding es).withScore (match r with
      | .ok v => v
      | .error _ => 0.0) = picked es r := by
  -- The total cost, and the total where there is no score, are sums of two zeros.
  have hzero : (0.0 : Float) + 0.0 = 0.0 := by decide +kernel
  unfold Path.withScore Path.refreshTotals picked Path.holding
  cases r with
  | ok v => rw [hzero]
  | error e => rw [hzero]

/-- The picks are scored by one evaluation, whatever comes of it. -/
theorem run_scored (p : Problem) (es : List (String × Candidate)) : (scored p (.holding es)).run =
    (p.evaluate (.holding es)).run >>= fun r => Consult.done (.ok (picked es r)) := by
  rw [scored_eq, run_attempt_bind]
  unfold Problem.score
  rw [Objective.score_eq, run_bind, Consult.bind_assoc']
  refine congrArg _ (funext fun r => ?_)
  rw [← withScore_picks]
  cases r with
  | ok v => rfl
  | error e => rfl

theorem run_randomPick (h : picks choices 0 {} p.demands = .ok (some (.holding es))) :
    (p.randomPick choices).run =
      (p.evaluate (.holding es)).run >>= fun r => Consult.done (.ok (some (picked es r))) := by
  unfold Problem.randomPick
  rw [h, ofExcept_ok_bind]
  simp only
  rw [← bind_pure_comp, run_bind, run_scored, Consult.bind_assoc']
  rfl

/-- An evaluation of the objective on the picks settles the outcome and makes all calls. -/
theorem outcome_of_picks (h : picks choices 0 {} p.demands = .ok (some (.holding es))) :
    (p.randomPick choices).outcome engine s =
        ((p.evaluate (.holding es)).outcome engine s).map (fun r => .ok (some (picked es r))) ∧
      (p.randomPick choices).calls engine s = (p.evaluate (.holding es)).calls engine s := by
  unfold outcome calls
  rw [run_randomPick h, Consult.result_bind, Consult.calls_bind, Option.map_eq_bind]
  refine ⟨rfl, ?_⟩
  cases ((p.evaluate (.holding es)).run.run engine s).result with
  | none => exact List.append_nil _
  | some r => exact List.append_nil _

/-- The demands of an accepted problem are picked one after the other, or some pool is empty. -/
theorem picks_cases (choices : Choices) (hp : p.WellFormed) :
    (picks choices 0 {} p.demands = .ok none ∧ ∃ d ∈ p.demands, d.candidates = []) ∨
      ∃ es, picks choices 0 {} p.demands = .ok (some (.holding es)) ∧
        Selects choices p.demands es := by
  obtain ⟨_ | path, ho⟩ := picks_of_nodup choices hp.names
  · exact .inl ⟨ho, picks_none ho⟩
  · obtain ⟨es, hes, rfl⟩ := picks_start ho
    exact .inr ⟨es, ho, hes⟩

theorem Selects.nonempty (h : Selects choices p.demands es) :
    ¬∃ d ∈ p.demands, d.candidates = [] := by
  rintro ⟨d, hd, hempty⟩
  obtain ⟨j, hj⟩ := List.getElem?_of_mem hd
  obtain ⟨x, hx, -⟩ := h.candidates j d hj
  rw [hempty] at hx
  cases hx

end RandomPick

/-- The picks do not depend on the constraints of the plan. -/
theorem Problem.randomPick_congr {plan : Plan} {cs : List ConstraintSpec} {p p' : Problem}
    (hp : Problem.ofPlan plan = .ok p)
    (hp' : Problem.ofPlan { plan with constraints := cs } = .ok p') (choices : Choices) :
    p'.randomPick choices = p.randomPick choices := by
  obtain ⟨built, o, -, -, -, ho, rfl⟩ := Problem.ofPlan_ok.1 hp
  obtain ⟨built', o', -, -, -, ho', rfl⟩ := Problem.ofPlan_ok.1 hp'
  cases ho.symm.trans ho'
  rfl

/-- Whatever the choices and the engine, random picks on an accepted problem come to no path exactly
where some pool is empty, and then the engine is asked nothing. Otherwise each demand is committed
once, in the order of resolution, to the candidate of its pool that its choice points at. On this
path, with nothing assumed, the objective is evaluated; that is all that the engine is asked, and
what comes of it is the score, or zero if it fails. Other constraints make no difference to the
search. -/
theorem Problem.randomPick_of_choices {σ : Type} {plan : Plan} {p : Problem}
    (hp : Problem.ofPlan plan = .ok p) (choices : Choices) (engine : Engine σ) (s : σ) :
    ((p.randomPick choices).outcome engine s = some (.ok none) ↔
      ∃ d ∈ p.demands, d.candidates = []) ∧
    ((∃ d ∈ p.demands, d.candidates = []) → (p.randomPick choices).calls engine s = []) ∧
    ((¬∃ d ∈ p.demands, d.candidates = []) → ∃ es, RandomPick.Selects choices p.demands es ∧
      (es.map Prod.fst).Nodup ∧
      (p.randomPick choices).outcome engine s =
        ((p.evaluate (.holding es)).outcome engine s).map
          (fun r => .ok (some (RandomPick.picked es r))) ∧
      (p.randomPick choices).calls engine s = (p.evaluate (.holding es)).calls engine s ∧
      ∀ r, (RandomPick.picked es r).trace =
        String.join (es.map fun e => e.1 ++ ":" ++ e.2.id ++ ">")) ∧
    ∀ cs p', Problem.ofPlan { plan with constraints := cs } = .ok p' →
      p'.randomPick choices = p.randomPick choices := by
  have hwf := Problem.ofPlan_wellFormed hp
  have hcongr : ∀ cs p', Problem.ofPlan { plan with constraints := cs } = .ok p' →
      p'.randomPick choices = p.randomPick choices :=
    fun cs p' hp' => Problem.randomPick_congr hp hp' choices
  rcases RandomPick.picks_cases choices hwf with ⟨ho, hempty⟩ | ⟨es, ho, hes⟩
  · have hnone := RandomPick.randomPick_of_picks_none ho
    refine ⟨iff_of_true ?_ hempty, fun _ => ?_, fun hfull => absurd hempty hfull, hcongr⟩
    · rw [hnone]
      rfl
    · rw [hnone]
      rfl
  · obtain ⟨houtcome, hcalls⟩ := RandomPick.outcome_of_picks ho
    refine ⟨iff_of_false ?_ hes.nonempty, fun hempty => absurd hempty hes.nonempty,
      fun _ => ⟨es, hes, ?_, houtcome, hcalls, fun r => ?_⟩, hcongr⟩
    · rw [houtcome]
      intro h
      obtain ⟨r, -, hr⟩ := Option.map_eq_some_iff.1 h
      cases hr
    · rw [hes.names]
      exact hwf.names
    · cases r with
      | ok v => rfl
      | error e => rfl

/-- The second candidate of both pools, under seven constraints or under none. -/
theorem Problem.randomPick_of_choices_twoSites :
    (∃ es, RandomPick.Selects (fun _ => 1) Problem.twoSites.demands es ∧
      es.map Prod.fst = ["a", "b"] ∧
      (Problem.twoSites.randomPick fun _ => 1).outcome Engine.recorded () =
        ((Problem.twoSites.evaluate (.holding es)).outcome Engine.recorded ()).map fun r =>
          .ok (some (RandomPick.picked es r))) ∧
    { Problem.twoSites with constraints := [] }.randomPick (fun _ => 1) =
      Problem.twoSites.randomPick fun _ => 1 := by
  obtain ⟨-, -, hpicks, hcongr⟩ :=
    Problem.randomPick_of_choices Problem.ofPlan_twoSites (fun _ => 1) Engine.recorded ()
  obtain ⟨es, hes, -, houtcome, -, -⟩ := hpicks (by decide)
  refine ⟨⟨es, hes, hes.names, houtcome⟩, hcongr [] _ ?_⟩
  exact Problem.ofPlan_sorted rfl rfl rfl rfl (by decide) (by decide)

end Placement
