import Placement.Proofs.Search.Finite
import Placement.Proofs.Search.RandomPick

/-!
# Totals of a result

The total of a path is to be what has cumulated and what is estimated to come. A round restores the
total of the candidate that it commits, but not what had cumulated in that candidate's trial: there
the last candidate with a score stays. The parts of a greedy result therefore add up where the last
candidate that was scored has the winning score, and nowhere else. Random picks are scored once, so
theirs always do, and so do all costs.
-/

namespace Placement

open Solving

namespace Greedy

variable {p : Problem} {path path' before : Path} {d : Demand} {demand : String} {x : Candidate}
  {r r' : Round} {pool : List Candidate} {done : List Demand} {log : List Exchange}
  {t : Except SolveError Path} {goal : Goal}

/-! ## Trials one after the other -/

/-- Candidates are tried one after the other, each on the same path; `trials` are the candidates
with what their trials have ended with. -/
inductive Tries (p : Problem) (path : Path) (demand : String) :
    List Exchange → List (Candidate × Except SolveError Path) → Prop where
  | nil : Tries p path demand [] []
  | cons {x : Candidate} {t : Except SolveError Path} {log log' : List Exchange}
      {trials : List (Candidate × Except SolveError Path)} :
      Ends (trial p path demand x) log t → Tries p path demand log' trials →
        Tries p path demand (log ++ log') ((x, t) :: trials)

/-- The paths on which the trials with a score have ended. -/
def scoredPaths (trials : List (Candidate × Except SolveError Path)) : List Path :=
  trials.filterMap fun t => t.2.toOption

theorem totalValue_of_trial {q : Path} (h : Ends (trial p path demand x) log (.ok q)) :
    q.totalValue = q.cumulatedValue + path.heuristicValue := by
  obtain ⟨assumed, v, ha, -, rfl⟩ := ends_trial_ok.1 h
  obtain ⟨-, rfl⟩ := Path.assume_ok.1 ha
  rfl

theorem mem_scoredPaths {trials : List (Candidate × Except SolveError Path)} {q : Path} :
    q ∈ scoredPaths trials ↔ ∃ x, (x, .ok q) ∈ trials := by
  unfold scoredPaths
  rw [List.mem_filterMap]
  constructor
  · rintro ⟨⟨x, t⟩, hmem, hq⟩
    cases t with
    | error e => cases hq
    | ok q' => cases hq; exact ⟨x, hmem⟩
  · rintro ⟨x, hmem⟩
    exact ⟨_, hmem, rfl⟩

theorem Tries.ends_of_mem {trials : List (Candidate × Except SolveError Path)}
    (h : Tries p path demand log trials) (hmem : (x, t) ∈ trials) :
    ∃ log', Ends (trial p path demand x) log' t := by
  induction h with
  | nil => cases hmem
  | @cons y u log log' trials hu _ ih =>
    rcases List.mem_cons.1 hmem with heq | hmem
    · cases heq
      exact ⟨log, hu⟩
    · exact ih hmem

theorem getD_getLast?_cons {α β : Type} (f : α → β) (a : α) (as : List α) (b : β) :
    ((a :: as).getLast?.map f).getD b = (as.getLast?.map f).getD (f a) := by
  rw [List.getLast?_cons]
  cases as.getLast? with
  | none => rfl
  | some last => rfl

theorem Tried.cumulatedValue (h : Tried goal demand r x t r') :
    r'.path.cumulatedValue = (t.toOption.map Path.cumulatedValue).getD r.path.cumulatedValue := by
  cases h with
  | better _ => rfl
  | notBetter _ => rfl
  | mismatch _ ha =>
    obtain ⟨-, rfl⟩ := Path.assume_ok.1 ha
    rfl

/-- A candidate that is tried is the best so far, with its total as the bound, or changes
neither. -/
theorem Tried.best (h : Tried goal demand r x t r') : r'.best = r.best ∧ r'.bound = r.bound ∨
    ∃ scored, t = .ok scored ∧ r'.best = some x ∧ r'.bound = scored.totalValue := by
  cases h with
  | better _ => exact .inr ⟨_, rfl, rfl, rfl⟩
  | notBetter _ => exact .inl ⟨rfl, rfl⟩
  | mismatch _ _ => exact .inl ⟨rfl, rfl⟩

/-- What has cumulated after some attempts is what the last candidate with a score has left there,
and the bound is the total of the best one. -/
theorem tries_of_attempts (hpath : Path.SameBut demand path r.path)
    (h : Ends (attempts p demand r pool) log (.ok r')) :
    ∃ trials, Tries p path demand log trials ∧ trials.map Prod.fst = pool ∧
      r'.path.cumulatedValue =
        ((scoredPaths trials).getLast?.map Path.cumulatedValue).getD r.path.cumulatedValue ∧
      (r'.best = r.best ∧ r'.bound = r.bound ∨
        ∃ w winner, (w, .ok winner) ∈ trials ∧ r'.best = some w ∧
          r'.bound = winner.totalValue) := by
  induction pool generalizing r log with
  | nil =>
    unfold attempts at h
    obtain ⟨rfl, hr⟩ := ends_pure.1 h
    cases hr
    exact ⟨[], .nil, rfl, rfl, .inl ⟨rfl, rfl⟩⟩
  | cons x pool ih =>
    unfold attempts at h
    obtain ⟨log₁, log₂, r₁, rfl, hx, h⟩ := ends_bind_ok.1 h
    obtain ⟨trials, htries, hpool, hcumulated, hbest⟩ := ih (sameBut_attempt hpath hx) h
    obtain ⟨t, ht, htried⟩ := ends_attempt_ok.1 hx
    -- The round tries the candidate on a path of its own, which makes no difference to the trial.
    rw [trial_congr hpath] at ht
    refine ⟨(x, t) :: trials, .cons ht htries, by rw [List.map_cons, hpool], ?_, ?_⟩
    · rw [hcumulated, htried.cumulatedValue]
      cases t with
      | error e => rfl
      -- What the first candidate leaves stays where no later one has a score.
      | ok q => exact (getD_getLast?_cons Path.cumulatedValue q _ _).symm
    · rcases hbest with ⟨hw, hbound⟩ | ⟨w, winner, hmem, hw, hbound⟩
      · rw [hw, hbound]
        refine htried.best.imp_right ?_
        rintro ⟨scored, rfl, hx, hscored⟩
        exact ⟨x, scored, List.mem_cons_self, hx, hscored⟩
      · exact .inr ⟨w, winner, List.mem_cons_of_mem _ hmem, hw, hbound⟩

/-! ## Rounds -/

/-- A round that commits leaves everything of the last trial but the decisions and the total. -/
theorem settle_frame (h : settle demand r = .ok (some path')) :
    path'.cumulatedValue = r.path.cumulatedValue ∧
    path'.cumulatedCost = r.path.cumulatedCost ∧ path'.heuristicCost = r.path.heuristicCost ∧
      path'.totalCost = r.path.totalCost := by
  unfold settle at h
  cases hbest : r.best with
  | none => rw [hbest] at h; cases h
  | some w =>
    rw [hbest] at h
    obtain ⟨q, hcommit, h⟩ := (except_bind_ok _ _ _).1 h
    cases h
    obtain ⟨-, rfl⟩ := Path.commit_ok.1 hcommit
    unfold Path.retract
    split
    · exact ⟨rfl, rfl, rfl, rfl⟩
    · exact ⟨rfl, rfl, rfl, rfl⟩

/-- The total cost is what has cumulated and what is estimated to come. -/
def CostsAddUp (path : Path) : Prop := path.totalCost = path.cumulatedCost + path.heuristicCost

theorem costsAddUp_of_attempt (hr : CostsAddUp r.path)
    (h : Ends (attempt p demand r x) log (.ok r')) :
    CostsAddUp r'.path := by
  obtain ⟨t, ht, htried⟩ := ends_attempt_ok.1 h
  cases htried with
  | better _ =>
    obtain ⟨assumed, v, -, -, rfl⟩ := ends_trial_ok.1 ht
    rfl
  | notBetter _ =>
    obtain ⟨assumed, v, -, -, rfl⟩ := ends_trial_ok.1 ht
    rfl
  | mismatch _ ha =>
    obtain ⟨-, rfl⟩ := Path.assume_ok.1 ha
    exact hr

theorem costsAddUp_of_round (hpath : CostsAddUp path)
    (h : Ends (round p path d) log (.ok (some path'))) :
    CostsAddUp path' := by
  obtain ⟨log₁, log₂, pool, r, rfl, -, hr, hsettle⟩ := ends_round_ok.1 h
  obtain ⟨-, hcost⟩ := attempts_induction (motive := fun _ r => CostsAddUp r.path)
    (fun _ _ _ _ _ _ _ hr hx => costsAddUp_of_attempt hr hx) [] (List.Subset.refl log₂)
    (Path.SameBut.refl _ _) hpath hr
  obtain ⟨-, hcumulated, hheuristic, htotal⟩ := settle_frame hsettle
  unfold CostsAddUp
  rw [htotal, hcumulated, hheuristic]
  exact hcost

theorem Reaches.costsAddUp (h : Reaches p done log path) : CostsAddUp path := by
  induction h with
  | start =>
    unfold CostsAddUp
    decide +kernel
  | @round done d log log' path path' _ hround ih =>
    have hcost : CostsAddUp path' := costsAddUp_of_round ih hround
    exact hcost

/-- With the exchanges `log` the last round has come to the path: the candidate that it commits has
ended its trial on `winner`, and the last candidate with a score on `last`. -/
def LastRound (p : Problem) (log : List Exchange) (path winner last : Path) : Prop :=
  ∃ done d log₁ log₂ log₃ before trials w, p.demands = done ++ [d] ∧ log = log₁ ++ (log₂ ++ log₃) ∧
    Reaches p done log₁ before ∧
    Ends (p.survivors (before.resolving d.name) d) log₂ (.ok (trials.map Prod.fst)) ∧
    Tries p (before.resolving d.name) d.name log₃ trials ∧ (w, .ok winner) ∈ trials ∧
    path.committed = before.committed ++ [(d.name, w)] ∧ (scoredPaths trials).getLast? = some last

theorem totals_of_round (hround : Ends (round p path d) log (.ok (some path'))) :
    ∃ log₁ log₂ trials w winner last, log = log₁ ++ log₂ ∧
      Ends (p.survivors (path.resolving d.name) d) log₁ (.ok (trials.map Prod.fst)) ∧
      Tries p (path.resolving d.name) d.name log₂ trials ∧ (w, .ok winner) ∈ trials ∧
      path'.committed = path.committed ++ [(d.name, w)] ∧
      (scoredPaths trials).getLast? = some last ∧
      path'.totalValue = winner.totalValue ∧ path'.cumulatedValue = last.cumulatedValue ∧
      last.totalValue = last.cumulatedValue + path'.heuristicValue := by
  obtain ⟨log₁, log₂, pool, r, rfl, hpool, hr, hsettle⟩ := ends_round_ok.1 hround
  obtain ⟨w, hw, hcommits⟩ := settle_some (sameBut_attempts (Path.SameBut.refl _ _) hr) hsettle
  obtain ⟨trials, htries, rfl, hcumulated, hbest⟩ := tries_of_attempts (Path.SameBut.refl _ _) hr
  rcases hbest with ⟨hnone, -⟩ | ⟨w', winner, hmem, hw', hbound⟩
  · cases hw.symm.trans hnone
  · cases hw.symm.trans hw'
    have hscored : winner ∈ scoredPaths trials := mem_scoredPaths.2 ⟨w, hmem⟩
    obtain ⟨last, hlast⟩ :=
      Option.isSome_iff_exists.1 (List.getLast?_isSome.2 (List.ne_nil_of_mem hscored))
    refine ⟨log₁, log₂, trials, w, winner, last, rfl, hpool, htries, hmem, hcommits.committed,
      hlast, ?_, ?_, ?_⟩
    · rw [hcommits.totalValue, hbound]
    · rw [(settle_frame hsettle).1, hcumulated, hlast]
      rfl
    · obtain ⟨x, hx⟩ := mem_scoredPaths.1 (List.mem_of_getLast? hlast)
      obtain ⟨log, htrial⟩ := htries.ends_of_mem hx
      rw [hcommits.heuristicValue]
      exact totalValue_of_trial htrial

end Greedy

/-! ## Searches -/

namespace Path

variable {path : Path}

theorem refreshTotals_eq_self : path.refreshTotals = path ↔
    path.cumulatedValue + path.heuristicValue = path.totalValue ∧
      path.cumulatedCost + path.heuristicCost = path.totalCost := by
  cases path
  simp [refreshTotals]

theorem refreshTotals_withScore (path : Path) (v : Float) :
    (path.withScore v).refreshTotals = path.withScore v := rfl

end Path

variable {σ : Type} {plan : Plan} {p : Problem}

/-- Against whatever engine, all costs of a path that is returned add up. The total of a greedy path
is that of the candidate committed last; what has cumulated is that of the last candidate with a
score in that round, so the totals of the path are its parts added up exactly where these two
candidates have the same total, or where there was no round. The totals of random picks are always
their parts added up. -/
theorem Problem.totals_of_search (hp : Problem.ofPlan plan = .ok p) (engine : Engine σ) (s : σ) :
    (∀ path, p.greedy.outcome engine s = some (.ok (some path)) →
      path.totalCost = path.cumulatedCost + path.heuristicCost ∧ path.heuristicValue = 0.0 ∧
      (p.demands = [] ∧ path.refreshTotals = path ∨
        ∃ winner last, Greedy.LastRound p (p.greedy.run.exchanges engine s) path winner last ∧
          path.totalValue = winner.totalValue ∧ path.cumulatedValue = last.cumulatedValue ∧
            (path.refreshTotals = path ↔ last.totalValue = winner.totalValue))) ∧
    ∀ choices path, (p.randomPick choices).outcome engine s = some (.ok (some path)) →
      path.refreshTotals = path := by
  refine ⟨fun path h => ?_, fun choices path h => ?_⟩
  · obtain ⟨h, -⟩ := ends_of_outcome h
    generalize p.greedy.run.exchanges engine s = log at h
    have hreaches := Greedy.ends_rounds_some.1 h
    have hcost := hreaches.costsAddUp
    have hheuristic := hreaches.stands.heuristicValue
    refine ⟨hcost, hheuristic, ?_⟩
    generalize hds : p.demands = ds at hreaches
    cases hreaches with
    | start => exact .inl ⟨rfl, by rw [Path.refreshTotals_eq_self]; decide +kernel⟩
    | @round done d log₁ log' before path' hbefore hround =>
      obtain ⟨log₂, log₃, trials, w, winner, last, rfl, hpool, htries, hmem, hcommitted, hlast,
          htotal, hcumulated,
        hlastTotal⟩ := Greedy.totals_of_round hround
      refine .inr ⟨winner, last,
        ⟨done, d, log₁, log₂, log₃, before, trials, w, hds, rfl, hbefore, hpool, htries, hmem,
          hcommitted, hlast⟩, htotal, hcumulated, ?_⟩
      rw [Path.refreshTotals_eq_self, and_iff_left hcost.symm, hlastTotal, ← hcumulated, ← htotal]
      exact Iff.rfl
  · obtain ⟨h, -⟩ := ends_of_outcome h
    obtain ⟨o, ho⟩ := RandomPick.picks_of_nodup choices (Problem.ofPlan_wellFormed hp).names
    rcases RandomPick.ends_randomPick ho h with ⟨-, hr⟩ | ⟨picked, t, rfl, hscore, hr⟩
    · cases hr
    · cases hr
      cases t with
      | error e => exact Path.refreshTotals_withScore _ _
      | ok q =>
        obtain ⟨v, -, rfl⟩ := Objective.ends_score_ok.1 hscore
        exact Path.refreshTotals_withScore _ _

/-! ## A loser scored after the winner -/

/-- The least of the scores is sought, and the first candidate has it. -/
def Candidate.graded : List Candidate := [.rated "a1" (.int 1), .rated "a2" (.int 2)]

theorem Problem.ofPlan_graded :
    Problem.ofPlan (.ratedSites Candidate.graded) = .ok (.ratedSites Candidate.graded) :=
  Problem.ofPlan_sorted rfl rfl rfl rfl (by decide) (by decide)

theorem Problem.totals_of_search_graded :
    ∃ path winner last : Path, (Problem.ratedSites Candidate.graded).greedy.outcome
      Engine.recorded () =
        some (.ok (some path)) ∧ path.totalValue = winner.totalValue ∧
        path.cumulatedValue = last.cumulatedValue ∧
      last.totalValue ≠ winner.totalValue ∧
      ∃ picked, ((Problem.ratedSites Candidate.graded).randomPick fun _ => 0).outcome
        Engine.recorded () =
        some (.ok (some picked)) ∧ picked.refreshTotals = picked := by
  obtain ⟨hgreedy, hrandom⟩ := Problem.totals_of_search Problem.ofPlan_graded Engine.recorded ()
  obtain ⟨path, h, htest⟩ := Greedy.exists_path
    (o := (Problem.ratedSites Candidate.graded).greedy.outcome Engine.recorded ())
    (fun path => decide (path.refreshTotals.totalValue ≠ path.totalValue)) (by decide +kernel)
  obtain ⟨picked, hpicked, -⟩ := Greedy.exists_path
    (o := ((Problem.ratedSites Candidate.graded).randomPick fun _ => 0).outcome Engine.recorded ())
    (fun _ => true) (by decide +kernel)
  obtain ⟨-, -, ⟨hdemands, -⟩ | ⟨winner, last, -, htotal, hcumulated, hiff⟩⟩ := hgreedy path h
  · cases hdemands
  · refine ⟨path, winner, last, h, htotal, hcumulated, fun heq => ?_, picked, hpicked,
      hrandom _ picked hpicked⟩
    exact of_decide_eq_true htest (congrArg Path.totalValue (hiff.2 heq))

/-- The candidate committed has the score 1, and what has cumulated is the score 2 of the other. -/
theorem Problem.greedy_total_not_cumulated :
    Problem.ofPlan (.ratedSites Candidate.graded) = .ok (.ratedSites Candidate.graded) ∧
    ∃ path, (Problem.ratedSites Candidate.graded).greedy.outcome Engine.recorded () =
      some (.ok (some path)) ∧
      path.trace = "a:a1>" ∧ path.totalValue = 1.0 ∧ path.cumulatedValue = 2.0 ∧
      path.heuristicValue = 0.0 ∧
      path.refreshTotals ≠ path := by
  obtain ⟨path, h, htest⟩ := Greedy.exists_path
    (o := (Problem.ratedSites Candidate.graded).greedy.outcome Engine.recorded ())
    (fun path => decide (path.trace = "a:a1>" ∧ path.totalValue = 1.0 ∧ path.cumulatedValue = 2.0 ∧
      path.heuristicValue = 0.0 ∧ path.refreshTotals.totalValue ≠ path.totalValue))
        (by decide +kernel)
  obtain ⟨htrace, htotal, hcumulated, hheuristic, hne⟩ := of_decide_eq_true htest
  exact ⟨Problem.ofPlan_graded, path, h, htrace, htotal, hcumulated, hheuristic,
    fun heq => hne (congrArg Path.totalValue heq)⟩

end Placement
