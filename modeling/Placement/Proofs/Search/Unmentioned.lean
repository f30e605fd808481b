import Placement.Proofs.Search.Skips

/-!
# Demands that no score depends on

Whatever is tried for a demand that the objective does not reference, the score is the one that the
path has already. This score counts, since it is zero at the start and has won the round before from
then on. So the round commits the first of the survivors and fails no more than the constraints do.
-/

namespace Placement

open Solving Greedy

variable {σ : Type} {engine : Engine σ} {s : σ} {plan : Plan} {p : Problem} {path : Path}
  {d : Demand} {done : List Demand} {log : List Exchange} {x w : Candidate} {xs : List Candidate}
  {k : Nat} {u v : Float}

/-- A NaN beats nothing. -/
theorem Goal.isNaN_of_isBetter {g : Goal} (h : g.isBetter u v = true) : u.isNaN = false := by
  unfold isBetter at h
  cases g with
  | minimize => exact (Decimal.isNaN_of_lt (of_decide_eq_true h)).1
  | maximize => exact (Decimal.isNaN_of_lt (of_decide_eq_true h)).2

namespace Greedy

/-! ## What a run keeps -/

/-- The score of a path that a run comes to is one that counts. -/
theorem Reaches.admits (he : engine.Stateless) (s : σ) (h : Reaches p done log path)
    (ha : engine.Answers log) :
    p.objective.goal.Admits path.totalValue := by
  cases h with
  | start => exact .inl ⟨by decide +kernel, fun hlargest => absurd hlargest.2 (by decide +kernel)⟩
  | round _ hround =>
    obtain ⟨-, ha⟩ := Engine.answers_append.1 ha
    obtain ⟨pool, w, v, -, hbest, hcommits⟩ := firstBest_of_round (s := s) he hround ha
    have hv := Goal.isBetter_initialBound_iff.1 hbest.eligible
    rw [← hcommits.totalValue] at hv
    exact hv

/-! ## Level scores -/

/-- Where all candidates have the same score, the first one is the first best. -/
theorem FirstBest.eq_head {g : Goal} {score : Scores} (h : FirstBest g score (x :: xs) w v)
    (hlevel : ∀ y ∈ x :: xs, score y = some (.ok u)) : w = x ∧ v = u := by
  cases (hlevel w h.mem).symm.trans h.scored
  obtain ⟨before, after, hsplit, hbefore⟩ := h.first
  cases before with
  | nil =>
    cases hsplit
    exact ⟨rfl, rfl⟩
  | cons y before =>
    cases hsplit
    -- A candidate before the winner has a worse score or none, and not the one that they share.
    have hx := hlevel x List.mem_cons_self
    rcases hbefore x List.mem_cons_self with ⟨e, he, -⟩ | ⟨u', hu', hworse⟩
    · cases hx.symm.trans he
    · cases hx.symm.trans hu'
      rcases hworse with hnan | hbetter
      · cases (Goal.isNaN_of_isBetter h.eligible).symm.trans hnan
      · cases (g.isBetter_self _).symm.trans hbetter

/-- Where all survivors have the same score and it counts, a round commits the first of them. -/
theorem commits_head_of_level (he : engine.Stateless) (hd : path.isDecided d.name = false)
    (hpool : (p.survivors (path.resolving d.name) d).outcome engine s = some (.ok (x :: xs)))
    (hlevel : ∀ y ∈ x :: xs, scores p engine s (path.resolving d.name) d.name y = some (.ok u))
    (hu : p.objective.goal.Admits u) :
    ∃ path', (round p path d).outcome engine s = some (.ok (some path')) ∧
      Commits d.name x u path path' := by
  obtain ⟨o, ho⟩ := outcome_round_of_tried he hd hpool fun y hy => .inl ⟨u, hlevel y hy⟩
  have hsome : o.isSome = true :=
    (isSome_round_iff he hd hpool ho).2
      ⟨x, List.mem_cons_self, Scores.eligible_iff.2 ⟨u, hlevel x List.mem_cons_self, hu⟩⟩
  obtain ⟨path', rfl⟩ := Option.isSome_iff_exists.1 hsome
  obtain ⟨w, v, hbest, hcommits⟩ := firstBest_of_survivors he hpool ho
  obtain ⟨rfl, rfl⟩ := hbest.eq_head hlevel
  exact ⟨path', ho, hcommits⟩

/-- A candidate for a demand that the objective does not reference has the score of the path. -/
theorem scores_of_unreferenced (he : engine.Stateless) (hd : path.isDecided d.name = false)
    (hn : d.name ∉ p.objective.referenced) (hscored : path.ScoredBy p engine s) (x : Candidate) :
    scores p engine s (path.resolving d.name) d.name x = some (.ok path.totalValue) := by
  have hopen : (path.resolving d.name).isDecided d.name = false := hd
  have hassume := (Path.assume_ok (x := x)).2 ⟨hopen, rfl⟩
  obtain ⟨v, hv, htotal⟩ := hscored
  have hagree : Path.AgreeOn p.objective.referenced path _ :=
    fun n hnref => (decision?_of_assume hassume fun hnd => hn (hnd ▸ hnref)).symm
  rw [show p.evaluate path = p.evaluate _ from Objective.evaluate_congr hagree] at hv
  obtain ⟨log, hends, ha⟩ := (outcome_iff he).1 hv
  rw [scores_of_ends he (ends_trial_ok.2 ⟨_, v, hassume, hends, rfl⟩) ha, htotal]
  rfl

end Greedy

/-! ## Runs by the number of rounds -/

/-- Let the first rounds have come to a path, the next one being for a demand that the objective
does not reference. Each of its survivors has the score of the path. If there are any, the round
commits the first of them and leaves the score as it is, which before the first round is zero. -/
theorem Problem.greedy_on_unreferenced (hp : Problem.ofPlan plan = .ok p)
    (he : engine.Stateless) (s : σ) (hk : p.demands[k]? = some d)
    (hn : d.name ∉ p.objective.referenced)
    (hpath : (p.greedyUpTo k).outcome engine s = some (.ok (some path))) :
    (k = 0 → path.totalValue = 0.0) ∧
    ∀ x xs, (p.survivors (path.resolving d.name) d).outcome engine s = some (.ok (x :: xs)) →
      (∀ y ∈ x :: xs, scores p engine s (path.resolving d.name) d.name y =
        some (.ok path.totalValue)) ∧
      ∃ path', (round p path d).outcome engine s = some (.ok (some path')) ∧
        (p.greedyUpTo (k + 1)).outcome engine s = some (.ok (some (resting path'))) ∧
        path'.committed = path.committed ++ [(d.name, x)] ∧ path'.totalValue = path.totalValue := by
  have hwf := Problem.ofPlan_wellFormed hp
  obtain ⟨log, hreaches, hgives⟩ := reaches_of_greedyUpTo hpath
  have ha := hgives.answers he
  have hd := hreaches.undecided hwf (Problem.demands_split hk)
  refine ⟨?_, fun x xs hpool => ?_⟩
  · rintro rfl
    cases hpath
    rfl
  · have hlevel := scores_of_unreferenced (s := s) he hd hn (scoredBy_of_reaches he hwf hreaches ha)
    obtain ⟨path', hround, hcommits⟩ :=
      commits_head_of_level he hd hpool (fun y _ => hlevel y) (hreaches.admits he s ha)
    refine ⟨fun y _ => hlevel y, path', hround, ?_, hcommits.committed, hcommits.totalValue⟩
    obtain ⟨log', hround, ha'⟩ := (outcome_iff he).1 hround
    unfold Problem.greedyUpTo
    rw [List.take_add_one, hk]
    exact (outcome_iff he).2 ⟨log ++ log', (hreaches.round hround).ends,
      Engine.answers_append.2 ⟨ha, ha'⟩⟩

/-! ## A demand on the side -/

/-- The greatest score of the first demand is sought, and nothing of the second one. -/
def Plan.sideSites : Plan where
  demands := [⟨"a", [.rated "a1" (.int 2)], 0⟩, ⟨"b", [.eastern "b1" 9.0, .eastern "b2" 1.0], 0⟩]
  constraints := []
  objective :=
    ⟨.maximize,
      .mk "sum" [.mk (some "attribute") (some { demand := some "a", key := some "score" }) none {}]⟩
  atlas := {}

def Problem.sideSites : Problem where
  demands := Plan.sideSites.demands
  constraints := []
  objective := ⟨.maximize, .sum, [.leaf .field { demand := some "a", key := some "score" } {}]⟩
  atlas := {}

theorem Problem.ofPlan_sideSites : Problem.ofPlan .sideSites = .ok .sideSites :=
  Problem.ofPlan_sorted rfl rfl rfl rfl (by decide) (by decide)

theorem Problem.greedy_on_unreferenced_sideSites :
    ∃ path path', (Problem.sideSites.greedyUpTo 1).outcome Engine.recorded () =
      some (.ok (some path)) ∧
      (path.totalValue == 2.0) = true ∧
        (Problem.sideSites.greedyUpTo 2).outcome Engine.recorded () =
          some (.ok (some (resting path'))) ∧
          path'.committed = path.committed ++ [("b", .eastern "b1" 9.0)] ∧
          path'.totalValue = path.totalValue := by
  obtain ⟨path, hpath, htotal⟩ :=
    exists_path (o := (Problem.sideSites.greedyUpTo 1).outcome Engine.recorded ())
    (fun path => path.totalValue == 2.0) (by decide +kernel)
  obtain ⟨-, hround⟩ :=
    Problem.greedy_on_unreferenced Problem.ofPlan_sideSites Engine.stateless_recorded ()
    (k := 1) rfl (by decide) hpath
  obtain ⟨-, path', -, hnext, hcommitted, hkept⟩ := hround _ _ rfl
  exact ⟨path, path', hpath, htotal, hnext, hcommitted, hkept⟩

end Placement
