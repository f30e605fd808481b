import Placement.Proofs.Search.FirstBest
import Placement.Proofs.Search.RandomPick

/-!
# The score of a result

A search overwrites the score of its path with every candidate it tries, the losers after the winner
included. The score that it returns is nevertheless that of the path it returns: the bound restored
at the end of a round comes from the trial of the candidate committed, and a trial sees the same
decisions as the commitment.
-/

namespace Placement

open Solving Greedy

variable {σ : Type} {engine : Engine σ} {s : σ} {plan : Plan} {p : Problem} {path path' : Path}
  {d : Demand} {done : List Demand} {log : List Exchange}

/-- The total of a path is what the objective makes of its decisions and what is estimated to
come. -/
def Path.ScoredBy (path : Path) (p : Problem) (engine : Engine σ) (s : σ) : Prop :=
  ∃ v, (p.evaluate path).outcome engine s = some (.ok v) ∧ path.totalValue = v + path.heuristicValue

/-- A round leaves the path with the score of what is committed. -/
theorem scoredBy_of_round (he : engine.Stateless) (h : Ends (round p path d) log (.ok (some path')))
    (ha : engine.Answers log) : (resting path').ScoredBy p engine s := by
  obtain ⟨pool, w, v, -, hbest, hcommits⟩ := firstBest_of_round (s := s) he h ha
  obtain ⟨log', t, htrial, ha', hv⟩ := ends_of_scores he hbest.scored
  rcases t with e | q
  · cases hv
  · obtain ⟨assumed, u, hassumed, hu, rfl⟩ := ends_trial_ok.1 htrial
    obtain ⟨hd, rfl⟩ := Path.assume_ok.1 hassumed
    -- The commitment leaves the decisions that the trial of the winner has seen.
    have hsame : p.evaluate (resting path') =
        p.evaluate ((path.resolving d.name).assuming d.name w) :=
      Objective.evaluate_congr fun e _ => congrArg (List.lookup e) hcommits.decisions
    refine ⟨u, ?_, ?_⟩
    · rw [hsame]
      exact (outcome_iff he).2 ⟨log', hu, ha'⟩
    · have hheuristic : (resting path').heuristicValue = path.heuristicValue :=
        hcommits.heuristicValue
      have htotal : (resting path').totalValue = v := hcommits.totalValue
      rw [htotal, hheuristic]
      cases hv
      rfl

/-- Every leaf is about some demand, so nothing is active where nothing is decided, and the score is
zero. -/
theorem scoredBy_start (he : engine.Stateless) (hp : p.WellFormed) :
    ({} : Path).ScoredBy p engine s := by
  have hinactive : ∀ l ∈ Term.leavesAll p.objective.operands, l.2.isActive {} = false := by
    intro l hl
    obtain ⟨d, hd⟩ := (hp.leaves l hl).exists_referenced
    exact List.all_eq_false.2 ⟨d, hd, Bool.false_ne_true⟩
  refine ⟨0.0, ?_, by decide +kernel⟩
  unfold Problem.evaluate
  rw [Objective.evaluate_of_inactive hinactive]
  exact (outcome_iff he).2 ⟨[], ends_pure.2 ⟨rfl, rfl⟩, fun _ h => (nomatch h)⟩

/-- Wherever the rounds come to, the path has the score of what is committed. -/
theorem scoredBy_of_reaches (he : engine.Stateless) (hp : p.WellFormed)
    (h : Reaches p done log path) (ha : engine.Answers log) : path.ScoredBy p engine s := by
  cases h with
  | start => exact scoredBy_start he hp
  | round _ hround =>
    obtain ⟨-, ha⟩ := Engine.answers_append.1 ha
    exact scoredBy_of_round he hround ha

/-- A score changes no decision, and so not what the objective evaluates to. -/
theorem Problem.evaluate_withScore (p : Problem) (path : Path) (v : Float) :
    p.evaluate (path.withScore v) = p.evaluate path :=
  Objective.evaluate_congr fun _ _ => rfl

/-- The score of the picks is set from an evaluation of the picks, or is zero. -/
theorem scoredBy_of_picks (he : engine.Stateless) {choices : Choices} (hp : p.WellFormed)
    (h : (p.randomPick choices).outcome engine s = some (.ok (some path))) :
    path.heuristicValue = 0.0 ∧ (path.ScoredBy p engine s ∨
      (∃ e, (p.evaluate path).outcome engine s = some (.error e)) ∧ path.totalValue = 0.0) := by
  obtain ⟨log, h, ha⟩ := (outcome_iff he).1 h
  obtain ⟨o, ho⟩ := RandomPick.picks_of_nodup choices hp.names
  rcases RandomPick.ends_randomPick ho h with ⟨-, hr⟩ | ⟨picked, t, rfl, hscore, hr⟩
  · cases hr
  · obtain ⟨-, hheuristic⟩ := RandomPick.picks_ok hp.names ho
    have hzero : picked.heuristicValue = 0.0 := hheuristic
    rcases t with e | q
    · cases hr
      refine ⟨hzero, .inr ⟨⟨e, ?_⟩, Path.totalValue_withScore_zero hzero⟩⟩
      rw [Problem.evaluate_withScore]
      exact (outcome_iff he).2 ⟨log, Objective.ends_score_error.1 hscore, ha⟩
    · cases hr
      obtain ⟨v, hv, rfl⟩ := Objective.ends_score_ok.1 hscore
      refine ⟨hzero, .inl ⟨v, ?_, rfl⟩⟩
      rw [Problem.evaluate_withScore]
      exact (outcome_iff he).2 ⟨log, hv, ha⟩

/-- The total of a greedy path is the value of the objective on that very path, with nothing
estimated to come. So is that of random picks, unless the objective cannot be evaluated on them;
then it is zero. -/
theorem Problem.totalValue_of_search (hp : Problem.ofPlan plan = .ok p) (he : engine.Stateless)
    (s : σ) :
    (∀ path, p.greedy.outcome engine s = some (.ok (some path)) →
      path.heuristicValue = 0.0 ∧ path.ScoredBy p engine s) ∧
    ∀ choices path, (p.randomPick choices).outcome engine s = some (.ok (some path)) →
      path.heuristicValue = 0.0 ∧ (path.ScoredBy p engine s ∨
        (∃ e, (p.evaluate path).outcome engine s = some (.error e)) ∧ path.totalValue = 0.0) := by
  have hwf := Problem.ofPlan_wellFormed hp
  refine ⟨fun path h => ?_, fun choices path h => scoredBy_of_picks he hwf h⟩
  obtain ⟨log, h, ha⟩ := (outcome_iff he).1 h
  have hreaches := ends_rounds_some.1 h
  exact ⟨hreaches.stands.heuristicValue, scoredBy_of_reaches he hwf hreaches ha⟩

theorem Problem.totalValue_of_search_twoSites :
    (∃ path, Problem.twoSites.greedy.outcome Engine.recorded () = some (.ok (some path)) ∧
      (path.totalValue == 2.0) = true ∧ path.ScoredBy .twoSites Engine.recorded ()) ∧
    ∃ path, (Problem.twoSites.randomPick fun _ => 0).outcome Engine.recorded () =
      some (.ok (some path)) ∧
      (path.totalValue == 4.0) = true ∧ path.heuristicValue = 0.0 := by
  obtain ⟨hgreedy, hrandom⟩ :=
    Problem.totalValue_of_search Problem.ofPlan_twoSites Engine.stateless_recorded ()
  obtain ⟨path, h, htotal⟩ := exists_path (o := Problem.twoSites.greedy.outcome Engine.recorded ())
    (fun path => path.totalValue == 2.0) (by decide +kernel)
  obtain ⟨path', h', htotal'⟩ :=
    exists_path (o := (Problem.twoSites.randomPick fun _ => 0).outcome Engine.recorded ())
      (fun path => path.totalValue == 4.0) (by decide +kernel)
  exact ⟨⟨path, h, htotal, (hgreedy path h).2⟩, path', h', htotal', (hrandom _ path' h').1⟩

end Placement
