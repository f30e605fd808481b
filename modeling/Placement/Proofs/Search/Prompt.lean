import Placement.Engine.Rehearsed
import Placement.Proofs.Constraint.Questions
import Placement.Proofs.Objective.Questions
import Placement.Proofs.Search.Failure

/-!
# What becomes of a failure of the engine

Every call that a search makes is made by a constraint or by a leaf of the objective, and each of
them passes a failure on. The greedy search skips a candidate for what its record lacks and for
nothing else, so a failure ends it. Random picks keep what has been picked and score it with zero.
-/

namespace Placement

open Solving

/-! ## Constraints and objectives -/

theorem failsFast_narrow (path : Path) (cs : List Constraint) (pool : List Candidate) :
    (narrow path cs pool).FailsFast :=
  (builtFrom_narrow path cs pool).failsFast

theorem Problem.failsFast_score (p : Problem) (path : Path) : (p.score path).FailsFast :=
  (p.builtFrom_score path).failsFast

/-! ## Searches -/

namespace Greedy

/-- A failure is not among the errors for which a candidate is passed over. -/
theorem failsFast_attempt (p : Problem) (demand : String) (r : Round) (x : Candidate) :
    (attempt p demand r x).FailsFast := by
  rw [attempt_eq]
  refine (failsFast_ofExcept _).bind fun path =>
    (p.failsFast_score path).attempt_bind (fun s => ?_) fun e => rfl
  rcases s with e | scored
  · simp only
    split
    · exact failsFast_pure _
    · exact failsFast_throw _
  · simp only
    split
    · exact failsFast_pure _
    · exact failsFast_pure _

theorem failsFast_attempts (p : Problem) (demand : String) :
    ∀ (pool : List Candidate) (r : Round), (attempts p demand r pool).FailsFast
  | [], r => failsFast_pure _
  | x :: xs, r => by
    unfold attempts
    exact (failsFast_attempt p demand r x).bind fun r' => failsFast_attempts p demand xs r'

theorem failsFast_round (p : Problem) (path : Path) (d : Demand) : (round p path d).FailsFast := by
  unfold round Problem.survivors
  exact (failsFast_narrow _ _ _).bind fun pool => (failsFast_attempts p d.name pool _).bind fun r =>
    failsFast_ofExcept _

theorem failsFast_rounds (p : Problem) :
    ∀ (ds : List Demand) (path : Path), (rounds p path ds).FailsFast
  | [], path => failsFast_pure _
  | d :: ds, path => by
    unfold rounds
    refine (failsFast_round p path d).bind fun o => ?_
    cases o with
    | none => exact failsFast_pure _
    | some path' => exact failsFast_rounds p ds path'

end Greedy

namespace RandomPick

/-- A failure in the evaluation leaves what has been picked, with the score zero. -/
theorem prompt_scored (p : Problem) (path : Path) :
    (scored p path).run.Prompt fun _ => .ok (path.withScore 0.0) := by
  rw [scored_eq]
  refine (p.failsFast_score path).attempt_bind (fun s => ?_) fun e => rfl
  cases s with
  | ok q => exact .done _
  | error e => exact .done _

variable {p : Problem} {choices : Choices}

theorem prompt_randomPick {path : Path} (h : picks choices 0 {} p.demands = .ok (some path)) :
    (p.randomPick choices).run.Prompt fun _ => .ok (some (path.withScore 0.0)) := by
  unfold Problem.randomPick
  rw [h, ofExcept_ok_bind]
  simp only
  rw [← bind_pure_comp]
  refine (prompt_scored p path).bind (fun r => ?_) fun e => rfl
  cases r with
  | ok q => exact .done _
  | error e => exact .done _

end RandomPick

section

variable {σ : Type} {plan : Plan} {p : Problem}

/-- A greedy search that ends with an error of the engine has met it in its last call. -/
theorem Greedy.lastFailure?_of_error (hp : p.WellFormed) {engine : Engine σ} {s : σ}
    {f : EngineError} (h : p.greedy.outcome engine s = some (.error (.engine f))) :
    lastFailure? (p.greedy.run.exchanges engine s) = some f := by
  obtain ⟨hends, -⟩ := ends_of_outcome h
  obtain ⟨ds₁, d, ds₂, log₁, log₂, path, hds, hlog, hreaches, hround⟩ :=
    (ends_rounds_stop (by simp)).1 hends
  rcases round_error hp (hreaches.undecided hp hds) hround with ⟨q, f', hlast, he⟩ |
    ⟨c, -, -, sibling, x, -, -, he⟩
  · cases he
    unfold lastFailure?
    rw [hlog, getLast?_of_suffix (List.suffix_append _ _) hlast]
    rfl
  · cases he

/-- Against any engine only the last call of a search on an accepted problem can have failed, and
after a failure nothing more is asked. A greedy search ends with an error of the engine exactly when
its last call has failed with that error. Random picks of which a call has failed end with a path
that commits every demand and has the score zero. -/
theorem Problem.failure_ends_search (hp : Problem.ofPlan plan = .ok p) (engine : Engine σ) (s : σ) :
    p.greedy.run.FailsLast engine s ∧
    (∀ f, p.greedy.outcome engine s = some (.error (.engine f)) ↔
      lastFailure? (p.greedy.run.exchanges engine s) = some f) ∧
    ∀ choices, (p.randomPick choices).run.FailsLast engine s ∧
      ∀ f, lastFailure? ((p.randomPick choices).run.exchanges engine s) = some f →
        ∃ path, (p.randomPick choices).outcome engine s = some (.ok (some path)) ∧
          path.totalValue = 0.0 ∧
          path.committed.map Prod.fst = p.names := by
  have hwf := Problem.ofPlan_wellFormed hp
  have hgreedy := Greedy.failsFast_rounds p p.demands {}
  refine ⟨hgreedy.failsLast engine s, fun f => ⟨Greedy.lastFailure?_of_error hwf, ?_⟩,
    fun choices => ?_⟩
  · exact (hgreedy.exchanges engine s).2 f
  · obtain ⟨o, ho⟩ := RandomPick.picks_of_nodup choices hwf.names
    cases o with
    | none =>
      rw [RandomPick.randomPick_of_picks_none ho]
      exact ⟨(failsFast_pure none).failsLast engine s, fun f h => (nomatch h)⟩
    | some path =>
      have hprompt := RandomPick.prompt_randomPick ho
      obtain ⟨hnames, hheuristic⟩ := RandomPick.picks_ok hwf.names ho
      exact ⟨hprompt.failsLast engine s, fun f h => ⟨_, (hprompt.exchanges engine s).2 f h,
        Path.totalValue_withScore_zero hheuristic, hnames⟩⟩

end

/-! ## An engine that fails once -/

/-- The plan of two sites, which are to be close to one another. -/
def Plan.closeSites : Plan :=
  { Plan.twoSites with
    objective :=
      ⟨.minimize,
        .mk "sum" [.mk (some "distance_between") (some { demands := ["a", "b"] }) none {}]⟩ }

def Problem.closeSites : Problem :=
  { Problem.twoSites with
    objective := ⟨.minimize, .sum, [.leaf .distance { demands := ["a", "b"] } {}]⟩ }

theorem Problem.ofPlan_closeSites : Problem.ofPlan .closeSites = .ok .closeSites :=
  Problem.ofPlan_sorted rfl rfl rfl rfl (by decide) (by decide)

/-- No topic is barred: the cues alone decide. -/
def Engine.cued : Engine (List Cue) := Engine.rehearsed ⟨[], [], []⟩

/-- So many answers from the records before a failure. -/
def Cue.failingAfter (n : Nat) : List Cue :=
  List.replicate n .recorded ++ [.fail (.unavailable "gone")]

/-- The call that fails is made for a leaf of the objective. -/
theorem Problem.failure_ends_search_closeSites :
    (Problem.closeSites.greedy.run.run Engine.cued (Cue.failingAfter 7)).calls.length = 8 ∧
      Problem.closeSites.greedy.outcome Engine.cued (Cue.failingAfter 7) =
        some (.error (.engine (.unavailable "gone"))) ∧
      ∃ path, (Problem.closeSites.randomPick fun _ => 1).outcome Engine.cued (Cue.failingAfter 1) =
        some (.ok (some path)) ∧ path.totalValue = 0.0 ∧
        path.committed.map Prod.fst = Problem.closeSites.names := by
  obtain ⟨-, hgreedy, -⟩ :=
    Problem.failure_ends_search Problem.ofPlan_closeSites Engine.cued (Cue.failingAfter 7)
  obtain ⟨-, -, hrandom⟩ :=
    Problem.failure_ends_search Problem.ofPlan_closeSites Engine.cued (Cue.failingAfter 1)
  obtain ⟨-, hpicked⟩ := hrandom fun _ => 1
  exact ⟨by decide +kernel, (hgreedy _).2 (by decide +kernel),
    hpicked (.unavailable "gone") (by decide +kernel)⟩

end Placement
