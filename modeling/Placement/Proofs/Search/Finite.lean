import Placement.Proofs.Decimal.Extremes
import Placement.Proofs.Search.Failure
import Placement.Proofs.Search.FirstBest

/-!
# Which scores win

A round starts from a bound and commits only what beats it. The bound stands in for a test of the
score: it keeps out every NaN and one of the infinities, but not the infinity that the goal favours,
and against the largest double as the bound of a minimization a score of the largest double does not
count.
-/

namespace Placement

open Solving Greedy

/-! ## Scores that count -/

namespace Goal

variable {g : Goal} {v : Float}

/-- The infinity that beats every other score. -/
def extreme : Goal → Float
  | minimize => -Decimal.infinity
  | maximize => Decimal.infinity

/-- The score is finite, and not the largest where the least is sought, or it is the infinity that
the goal favours. -/
def Admits (g : Goal) (v : Float) : Prop :=
  v.isFinite = true ∧ ¬(g = .minimize ∧ v = Decimal.largest) ∨ v = g.extreme

theorem isBetter_initialBound_iff : g.isBetter v g.initialBound = true ↔ g.Admits v := by
  unfold isBetter Admits extreme
  cases g with
  | minimize =>
    refine decide_eq_true_iff.trans (Decimal.lt_largest_iff.trans ?_)
    simp
  | maximize =>
    refine decide_eq_true_iff.trans (Decimal.neg_infinity_lt_iff.trans ?_)
    simp

theorem isBetter_extreme (h : v.isFinite = true) : g.isBetter g.extreme v = true := by
  cases g with
  | minimize => exact decide_eq_true (Decimal.lt_infinities h).1
  | maximize => exact decide_eq_true (Decimal.lt_infinities h).2

theorem Admits.finite_or_extreme (h : g.Admits v) : v.isFinite = true ∨ v = g.extreme :=
  h.imp_left And.left

end Goal

namespace Greedy

variable {σ : Type} {engine : Engine σ} {s : σ} {p : Problem} {path : Path} {d : Demand}
  {pool : List Candidate} {g : Goal} {score : Scores} {w : Candidate} {v : Float} {o : Option Path}

theorem Scores.eligible_iff {x : Candidate} :
    score.Eligible g x ↔ ∃ v, score x = some (.ok v) ∧ g.Admits v :=
  exists_congr fun _ => and_congr_right fun _ => Goal.isBetter_initialBound_iff

/-- A score of which a test can be evaluated. -/
theorem Scores.exists_score {x : Candidate} (test : Float → Bool)
    (h : (match score x with
      | some (.ok v) => test v
      | _ => false) = true) : ∃ v, score x = some (.ok v) ∧ test v = true := by
  split at h
  · next v hv => exact ⟨v, hv, h⟩
  · cases h

/-- The winner's score is finite unless some candidate has a score that beats every finite one. -/
theorem FirstBest.isFinite_iff (h : FirstBest g score pool w v) :
    v.isFinite = true ↔ ∀ x ∈ pool, score x ≠ some (.ok g.extreme) := by
  constructor
  · intro hfinite x hx hextreme
    have hworse := h.unbeaten x hx _ hextreme
    rw [Goal.isBetter_extreme hfinite] at hworse
    cases hworse
  · intro hnone
    rcases (Goal.isBetter_initialBound_iff.1 h.eligible).finite_or_extreme with hfinite | rfl
    · exact hfinite
    · exact absurd h.scored (hnone w h.mem)

/-- What a round commits is the first best of the survivors. -/
theorem firstBest_of_survivors (he : engine.Stateless) {path' : Path}
    (hpool : (p.survivors (path.resolving d.name) d).outcome engine s = some (.ok pool))
    (h : (round p path d).outcome engine s = some (.ok (some path'))) :
    ∃ w v, FirstBest p.objective.goal (scores p engine s (path.resolving d.name) d.name) pool w v ∧
      Commits d.name w v path path' := by
  obtain ⟨log, hround, ha⟩ := (outcome_iff he).1 h
  obtain ⟨pool', w, v, hpool', hbest, hcommits⟩ := firstBest_of_round (s := s) he hround ha
  cases hpool.symm.trans hpool'
  exact ⟨w, v, hbest, hcommits⟩

/-- A round whose survivors are known commits one of them exactly when one of them is eligible. -/
theorem isSome_round_iff (he : engine.Stateless) (hd : path.isDecided d.name = false)
    (hpool : (p.survivors (path.resolving d.name) d).outcome engine s = some (.ok pool))
    (h : (round p path d).outcome engine s = some (.ok o)) :
    o.isSome = true ↔
      ∃ x ∈ pool, (scores p engine s (path.resolving d.name) d.name).Eligible
        p.objective.goal x := by
  cases o with
  | none =>
    obtain ⟨pool', hpool', hnone⟩ := (round_none_iff he hd).1 h
    cases hpool.symm.trans hpool'
    exact iff_of_false (by simp) fun ⟨x, hx, heligible⟩ => (hnone x hx).2 heligible
  | some path' =>
    obtain ⟨w, v, hbest, -⟩ := firstBest_of_survivors he hpool h
    exact iff_of_true rfl ⟨w, hbest.mem, v, hbest.scored, hbest.eligible⟩

/-- Where the records answer, a round with survivors that are known ends without an error. -/
theorem outcome_round_recorded (hp : p.WellFormed) (hd : path.isDecided d.name = false)
    (hpool : (p.survivors (path.resolving d.name) d).outcome Engine.recorded () = some (.ok pool)) :
    ∃ o, (round p path d).outcome Engine.recorded () = some (.ok o) := by
  obtain ⟨r, hr⟩ := outcome_recorded (round p path d)
  cases r with
  | ok o => exact ⟨o, hr⟩
  | error e =>
    obtain ⟨log, hround, ha⟩ := (outcome_iff Engine.stateless_recorded).1 hr
    rcases ends_round_error hd hround with
      hsurvivors | ⟨log₁, log₂, pool, rfl, -, x, -, log', hsuffix, htrial, hmismatch⟩
    · rw [(outcome_iff Engine.stateless_recorded).2 ⟨log, hsurvivors, ha⟩] at hpool
      cases hpool
    · have hopen : (path.resolving d.name).isDecided d.name = false := hd
      rcases trial_error hp hopen htrial with hfailed | he
      · exact absurd (hfailed.of_suffix (hsuffix.trans (List.suffix_append _ _)))
          (not_failed_recorded ha)
      · rw [hmismatch] at he
        cases he

end Greedy

section

variable {plan : Plan} {p : Problem}

/-- Against the engine that answers from the records, a round commits a candidate exactly when some
survivor has a score that is finite, and not the largest double where the least score is sought, or
is the infinity that the goal favours. Such is the score of the candidate committed; it is finite
unless some survivor scores that infinity. The score of a path that is returned is finite or that
infinity. -/
theorem Problem.scores_that_win (hp : Problem.ofPlan plan = .ok p) :
    (∀ k d path pool, p.demands[k]? = some d →
      (p.greedyUpTo k).outcome Engine.recorded () = some (.ok (some path)) →
      (p.survivors (path.resolving d.name) d).outcome Engine.recorded () = some (.ok pool) →
      ∃ o, (round p path d).outcome Engine.recorded () = some (.ok o) ∧
        (o.isSome = true ↔ ∃ x ∈ pool, ∃ v,
          scores p Engine.recorded () (path.resolving d.name) d.name x = some (.ok v) ∧
          p.objective.goal.Admits v) ∧
        ∀ path', o = some path' → ∃ w ∈ pool, path'.committed = path.committed ++ [(d.name, w)] ∧
          scores p Engine.recorded () (path.resolving d.name) d.name w =
            some (.ok path'.totalValue) ∧
            p.objective.goal.Admits path'.totalValue ∧
              (path'.totalValue.isFinite = true ↔ ∀ x ∈ pool,
                scores p Engine.recorded () (path.resolving d.name) d.name x ≠
                  some (.ok p.objective.goal.extreme))) ∧
    ∀ path, p.greedy.outcome Engine.recorded () = some (.ok (some path)) →
      path.totalValue.isFinite = true ∨ path.totalValue = p.objective.goal.extreme := by
  have hwf := Problem.ofPlan_wellFormed hp
  have he := Engine.stateless_recorded
  refine ⟨fun k d path pool hk hpath hpool => ?_, fun path h => ?_⟩
  · obtain ⟨log, hreaches, -⟩ := reaches_of_greedyUpTo hpath
    have hd := hreaches.undecided hwf (Problem.demands_split hk)
    obtain ⟨o, ho⟩ := outcome_round_recorded hwf hd hpool
    refine ⟨o, ho, ?_, ?_⟩
    · rw [isSome_round_iff he hd hpool ho]
      exact exists_congr fun x => and_congr_right fun _ => Scores.eligible_iff
    · rintro path' rfl
      obtain ⟨w, v, hbest, hcommits⟩ := firstBest_of_survivors he hpool ho
      rw [hcommits.totalValue]
      exact ⟨w, hbest.mem, hcommits.committed, hbest.scored,
        Goal.isBetter_initialBound_iff.1 hbest.eligible, hbest.isFinite_iff⟩
  · obtain ⟨log, h, ha⟩ := (outcome_iff he).1 h
    have hreaches := ends_rounds_some.1 h
    generalize p.demands = done at hreaches
    cases hreaches with
    | start => exact .inl (by decide +kernel)
    | @round done d log log' before after _ hround =>
      obtain ⟨-, ha⟩ := Engine.answers_append.1 ha
      obtain ⟨pool, w, v, -, hbest, hcommits⟩ := firstBest_of_round (s := ()) he hround ha
      have hadmits := Goal.isBetter_initialBound_iff.1 hbest.eligible
      rw [← hcommits.totalValue] at hadmits
      exact hadmits.finite_or_extreme

end

/-! ## A score that reads as no number, and the largest one -/

/-- A candidate with a score in its record. -/
def Candidate.rated (id : String) (score : Json) : Candidate :=
  ⟨id, "aai", "cloud", 1.0, [("score", score)]⟩

/-- One demand; the least of the scores is sought, each of them the greatest of one number. -/
def Plan.ratedSites (pool : List Candidate) : Plan where
  demands := [⟨"a", pool, 0⟩]
  constraints := []
  objective :=
    ⟨.minimize,
      .mk "max" [.mk (some "attribute") (some { demand := some "a", key := some "score" }) none {}]⟩
  atlas := {}

def Problem.ratedSites (pool : List Candidate) : Problem where
  demands := [⟨"a", pool, 0⟩]
  constraints := []
  objective := ⟨.minimize, .max, [.leaf .field { demand := some "a", key := some "score" } {}]⟩
  atlas := {}

/-- The score of the first candidate reads as a NaN, that of the second is a number. -/
def Candidate.unread : List Candidate := [.rated "a1" (.string "NaN"), .rated "a2" (.int 1)]

theorem Problem.ofPlan_unread :
    Problem.ofPlan (.ratedSites Candidate.unread) = .ok (.ratedSites Candidate.unread) :=
  Problem.ofPlan_sorted rfl rfl rfl rfl (by decide) (by decide)

theorem Problem.scores_that_win_unread :
    ∃ path, (round (.ratedSites Candidate.unread) {} ⟨"a", Candidate.unread, 0⟩).outcome
        Engine.recorded () = some (.ok (some path)) ∧
      path.totalValue = Goal.extreme .minimize ∧ path.totalValue.isFinite = false := by
  obtain ⟨hround, -⟩ := Problem.scores_that_win Problem.ofPlan_unread
  obtain ⟨o, ho, hsome, hwinner⟩ :=
    hround 0 ⟨"a", Candidate.unread, 0⟩ {} Candidate.unread rfl rfl rfl
  obtain ⟨v, hv, hextreme⟩ : ∃ v,
      scores (.ratedSites Candidate.unread) Engine.recorded () (Path.resolving {} "a") "a"
        (.rated "a1" (.string "NaN")) = some (.ok v) ∧ decide (v = Goal.extreme .minimize) = true :=
    Scores.exists_score _ (by decide +kernel)
  rw [of_decide_eq_true hextreme] at hv
  obtain ⟨path, rfl⟩ :=
    Option.isSome_iff_exists.1 (hsome.2 ⟨_, List.mem_cons_self, _, hv, .inr rfl⟩)
  obtain ⟨w, -, -, -, hadmits, hfinite⟩ := hwinner path rfl
  have hinfinite : path.totalValue.isFinite = false := by
    rw [← Bool.not_eq_true, hfinite]
    exact fun hnone => hnone _ List.mem_cons_self hv
  refine ⟨path, ho, hadmits.finite_or_extreme.resolve_left ?_, hinfinite⟩
  rw [hinfinite]
  exact Bool.false_ne_true

/-- The least of the scores is no finite one where a NaN is dropped, and the largest double is no
score that counts. -/
theorem Problem.greedy_commits_no_number :
    (∃ path, (Problem.ratedSites Candidate.unread).greedy.outcome Engine.recorded () =
        some (.ok (some path)) ∧
      path.trace = "a:a1>" ∧ path.totalValue.isFinite = false) ∧
    (∃ v, scores (.ratedSites Candidate.unread) Engine.recorded () (Path.resolving {} "a") "a"
        (.rated "a2" (.int 1)) = some (.ok v) ∧
      v.isFinite = true) ∧
    (Problem.ratedSites [.rated "a1" (.real Decimal.largest)]).greedy.outcome Engine.recorded () =
      some (.ok none) ∧
    ∃ v, scores (.ratedSites [.rated "a1" (.real Decimal.largest)]) Engine.recorded ()
        (Path.resolving {} "a") "a" (.rated "a1" (.real Decimal.largest)) = some (.ok v) ∧
      v.isFinite = true := by
  refine ⟨?_, Scores.exists_score _ (by decide +kernel), outcome_eq_none (by decide +kernel),
    Scores.exists_score _ (by decide +kernel)⟩
  obtain ⟨path, h, htest⟩ := exists_path
    (o := (Problem.ratedSites Candidate.unread).greedy.outcome Engine.recorded ())
    (fun path => path.trace == "a:a1>" && !path.totalValue.isFinite) (by decide +kernel)
  rw [Bool.and_eq_true, Bool.not_eq_true'] at htest
  exact ⟨path, h, eq_of_beq htest.1, htest.2⟩

end Placement
