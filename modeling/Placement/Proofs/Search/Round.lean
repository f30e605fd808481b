import Placement.Proofs.Engine.Conversation
import Placement.Proofs.Objective.Frame
import Placement.Search.Greedy

/-!
# One round of the greedy search

A trial assumes a candidate on the path of the earlier commitments and scores it. What a round has
tried before does not show in a trial: the path that the round drags along is the one it started
from, but for the last assumption and the score. At its end a round either commits its best
candidate or commits nothing.
-/

namespace Placement

open Solving

/-- The path with a demand under resolution. -/
def Path.resolving (path : Path) (demand : String) : Path := { path with current := some demand }

theorem Objective.ends_score_ok {o : Objective} {a : Atlas} {path q : Path} {log : List Exchange} :
    Ends (o.score a path) log (.ok q) ↔
      ∃ v, Ends (o.evaluate a path) log (.ok v) ∧ q = path.withScore v := by
  rw [score_eq, ends_bind_ok]
  constructor
  · rintro ⟨log₁, log₂, v, rfl, hv, hq⟩
    obtain ⟨rfl, hq⟩ := ends_pure.1 hq
    cases hq
    rw [List.append_nil]
    exact ⟨v, hv, rfl⟩
  · rintro ⟨v, hv, rfl⟩
    exact ⟨log, [], v, (List.append_nil _).symm, hv, ends_pure.2 ⟨rfl, rfl⟩⟩

theorem Objective.ends_score_error {o : Objective} {a : Atlas} {path : Path} {log : List Exchange}
    {e : SolveError} :
    Ends (o.score a path) log (.error e) ↔ Ends (o.evaluate a path) log (.error e) := by
  rw [score_eq, ends_bind_error]
  constructor
  · rintro (h | ⟨log₁, log₂, v, -, -, h⟩)
    · exact h
    · cases (ends_pure.1 h).2
  · exact .inl

namespace Greedy

variable {p : Problem} {path path' q : Path} {d : Demand} {demand : String} {x w : Candidate}
  {r r' : Round} {pool : List Candidate} {log : List Exchange} {e : SolveError}

/-! ## Trials -/

/-- The path with a candidate assumed, and scored so. -/
def trial (p : Problem) (path : Path) (demand : String) (x : Candidate) : Solving Path := do
  let assumed ← Solving.ofExcept (path.assume demand x)
  p.score assumed

theorem trial_congr (h : Path.SameBut demand path q) :
    trial p q demand x = trial p path demand x := by
  unfold trial Path.assume
  rw [Path.run_assume, Path.run_assume, h.isDecided]
  cases path.isDecided demand with
  | true => rfl
  | false => exact p.objective.score_assuming h x

theorem ends_trial_ok : Ends (trial p path demand x) log (.ok q) ↔
    ∃ assumed v, path.assume demand x = .ok assumed ∧ Ends (p.evaluate assumed) log (.ok v) ∧
      q = assumed.withScore v := by
  unfold trial
  rcases ha : path.assume demand x with e | assumed
  · simp [ends_throw]
  · rw [Solving.ofExcept_ok_bind]
    unfold Problem.score
    rw [Objective.ends_score_ok]
    simp [Problem.evaluate]

theorem ends_trial_error (hd : path.isDecided demand = false) :
    Ends (trial p path demand x) log (.error e) ↔
    ∃ assumed, path.assume demand x = .ok assumed ∧ Ends (p.evaluate assumed) log (.error e) := by
  have hassume := (Path.assume_ok (x := x)).2 ⟨hd, rfl⟩
  unfold trial
  rw [hassume, Solving.ofExcept_ok_bind]
  unfold Problem.score Problem.evaluate
  rw [Objective.ends_score_error]
  simp

theorem sameBut_trial (h : Ends (trial p path demand x) log (.ok q)) :
    Path.SameBut demand path q := by
  obtain ⟨assumed, v, ha, -, rfl⟩ := ends_trial_ok.1 h
  exact (Path.sameBut_assume ha).trans (Path.sameBut_withScore _ _ _)

/-! ## Attempts -/

/-- A candidate that cannot be scored leaves the path on which it was assumed. -/
theorem attempt_eq : attempt p demand r x = (do
    let path ← Solving.ofExcept (r.path.assume demand x)
    match ← Solving.attempt (p.score path) with
    | .ok scored =>
      if p.objective.goal.isBetter scored.totalValue r.bound then
        pure { path := scored, bound := scored.totalValue, best := some x }
      else pure { r with path := scored }
    | .error e => if e.isMismatch then pure { r with path } else throw e) := by
  unfold attempt
  refine congrArg (Solving.ofExcept (r.path.assume demand x) >>= ·) (funext fun path => ?_)
  refine (p.compute_bind path _).trans ?_
  refine congrArg (Solving.attempt (p.score path) >>= ·) (funext fun s => ?_)
  cases s with
  | ok scored => rfl
  | error e => rfl

/-- How an attempt that goes on changes the round: the candidate has a score, which may be the best
so far, or its record lacks what the objective reads. -/
inductive Tried (goal : Goal) (demand : String) (r : Round) (x : Candidate) :
    Except SolveError Path → Round → Prop where
  | better {scored : Path} : goal.isBetter scored.totalValue r.bound = true →
      Tried goal demand r x (.ok scored) ⟨scored, scored.totalValue, some x⟩
  | notBetter {scored : Path} : goal.isBetter scored.totalValue r.bound = false →
      Tried goal demand r x (.ok scored) { r with path := scored }
  | mismatch {e : SolveError} {assumed : Path} :
      e.isMismatch = true → r.path.assume demand x = .ok assumed →
      Tried goal demand r x (.error e) { r with path := assumed }

theorem ends_attempt_ok : Ends (attempt p demand r x) log (.ok r') ↔
    ∃ s, Ends (trial p r.path demand x) log s ∧ Tried p.objective.goal demand r x s r' := by
  rw [attempt_eq]
  unfold trial
  rcases ha : r.path.assume demand x with e | assumed
  · obtain ⟨-, rfl⟩ := Path.assume_error.1 ha
    simp only [Solving.ofExcept_error_bind, ends_throw]
    constructor
    · rintro ⟨-, h⟩
      cases h
    · rintro ⟨s, ⟨-, rfl⟩, h⟩
      cases h with
      | mismatch he _ => cases he
  · simp only [Solving.ofExcept_ok_bind]
    rw [ends_attempt_bind]
    constructor
    · rintro ⟨log₁, log₂, s, rfl, hs, hrest⟩
      rcases s with e | scored
      · simp only at hrest
        split at hrest
        · next he =>
          obtain ⟨rfl, hr⟩ := ends_pure.1 hrest
          cases hr
          rw [List.append_nil]
          exact ⟨.error e, hs, .mismatch he ha⟩
        · cases (ends_throw.1 hrest).2
      · simp only at hrest
        split at hrest
        · next hbetter =>
          obtain ⟨rfl, hr⟩ := ends_pure.1 hrest
          cases hr
          rw [List.append_nil]
          exact ⟨.ok scored, hs, .better hbetter⟩
        · next hbetter =>
          obtain ⟨rfl, hr⟩ := ends_pure.1 hrest
          cases hr
          rw [List.append_nil]
          exact ⟨.ok scored, hs, .notBetter (by simpa using hbetter)⟩
    · rintro ⟨s, hs, htried⟩
      refine ⟨log, [], s, (List.append_nil _).symm, hs, ?_⟩
      cases htried with
      | better h =>
        simp only [h, if_true]
        exact ends_pure.2 ⟨rfl, rfl⟩
      | notBetter h =>
        simp only [h]
        exact ends_pure.2 ⟨rfl, rfl⟩
      | mismatch he hassumed =>
        rw [ha] at hassumed
        cases hassumed
        simp only [he, if_true]
        exact ends_pure.2 ⟨rfl, rfl⟩

theorem ends_attempt_error (h : Ends (attempt p demand r x) log (.error e)) :
    Ends (trial p r.path demand x) log (.error e) ∧ e.isMismatch = false := by
  rw [attempt_eq] at h
  unfold trial
  rcases ha : r.path.assume demand x with e' | assumed
  · obtain ⟨-, rfl⟩ := Path.assume_error.1 ha
    rw [ha, Solving.ofExcept_error_bind] at h
    obtain ⟨rfl, h⟩ := ends_throw.1 h
    cases h
    exact ⟨ends_throw.2 ⟨rfl, rfl⟩, rfl⟩
  · rw [ha, Solving.ofExcept_ok_bind] at h
    rw [Solving.ofExcept_ok_bind]
    obtain ⟨log₁, log₂, s, rfl, hs, hrest⟩ := ends_attempt_bind.1 h
    rcases s with e' | scored
    · simp only at hrest
      split at hrest
      · cases (ends_pure.1 hrest).2
      · next he =>
        obtain ⟨rfl, hr⟩ := ends_throw.1 hrest
        cases hr
        rw [List.append_nil]
        exact ⟨hs, by simpa using he⟩
    · simp only at hrest
      split at hrest
      · cases (ends_pure.1 hrest).2
      · cases (ends_pure.1 hrest).2

/-- What an attempt tries is what would be tried on the path of the earlier commitments. -/
theorem sameBut_attempt (hpath : Path.SameBut demand path r.path)
    (h : Ends (attempt p demand r x) log (.ok r')) : Path.SameBut demand path r'.path := by
  obtain ⟨s, hs, htried⟩ := ends_attempt_ok.1 h
  cases htried with
  | better _ => exact hpath.trans (sameBut_trial hs)
  | notBetter _ => exact hpath.trans (sameBut_trial hs)
  | mismatch _ ha => exact hpath.trans (Path.sameBut_assume ha)

/-- What every attempt preserves holds of the round when the pool is exhausted. `seen` are the
candidates tried so far. -/
theorem attempts_induction {motive : List Candidate → Round → Prop}
    (hstep : ∀ seen x r r', ∀ log' ⊆ log, Path.SameBut demand path r.path → motive seen r →
      Ends (attempt p demand r x) log' (.ok r') → motive (seen ++ [x]) r') :
    ∀ {pool : List Candidate} (seen : List Candidate) {r : Round} {log' : List Exchange},
      log' ⊆ log →
      Path.SameBut demand path r.path → motive seen r →
        Ends (attempts p demand r pool) log' (.ok r') →
        Path.SameBut demand path r'.path ∧ motive (seen ++ pool) r'
  | [], seen, r, log', _, hpath, hr, h => by
    unfold attempts at h
    cases (ends_pure.1 h).2
    rw [List.append_nil]
    exact ⟨hpath, hr⟩
  | x :: pool, seen, r, log', hsub, hpath, hr, h => by
    unfold attempts at h
    obtain ⟨log₁, log₂, s, rfl, hs, hrest⟩ := ends_bind_ok.1 h
    obtain ⟨hsub₁, hsub₂⟩ := List.append_subset.1 hsub
    have hseen := attempts_induction hstep (seen ++ [x]) hsub₂ (sameBut_attempt hpath hs)
      (hstep seen x r s log₁ hsub₁ hpath hr hs) hrest
    rwa [List.append_assoc] at hseen

theorem sameBut_attempts (hpath : Path.SameBut demand path r.path)
    (h : Ends (attempts p demand r pool) log (.ok r')) :
    Path.SameBut demand path r'.path :=
  (attempts_induction (motive := fun _ _ => True)
    (fun _ _ _ _ _ _ _ _ _ => trivial) [] (List.Subset.refl log) hpath
    trivial h).1

/-- The best candidate of a round is one that the round has tried. -/
theorem best_mem (hpath : Path.SameBut demand path r.path) (hr : r.best = none)
    (h : Ends (attempts p demand r pool) log (.ok r')) (hw : r'.best = some w) : w ∈ pool := by
  refine (attempts_induction (motive := fun seen r => ∀ w, r.best = some w → w ∈ seen) ?_ []
    (List.Subset.refl log)
    hpath (by simp [hr]) h).2 w hw
  intro seen x r r' log' _ _ hseen hx y hy
  rw [List.mem_append, List.mem_singleton]
  obtain ⟨s, -, htried⟩ := ends_attempt_ok.1 hx
  cases htried with
  | better _ => cases hy; exact .inr rfl
  | notBetter _ => exact .inl (hseen y hy)
  | mismatch _ _ => exact .inl (hseen y hy)

/-- The attempts fail where a trial does, for a reason that is not in the candidate's record. -/
theorem ends_attempts_error (hpath : Path.SameBut demand path r.path)
    (h : Ends (attempts p demand r pool) log (.error e)) :
    ∃ x ∈ pool, ∃ log', log' <:+ log ∧ Ends (trial p path demand x) log' (.error e) ∧
      e.isMismatch = false := by
  induction pool generalizing r log with
  | nil =>
    unfold attempts at h
    cases (ends_pure.1 h).2
  | cons x pool ih =>
    unfold attempts at h
    rcases ends_bind_error.1 h with hx | ⟨log₁, log₂, s, rfl, hs, hrest⟩
    · obtain ⟨htrial, he⟩ := ends_attempt_error hx
      rw [trial_congr hpath] at htrial
      exact ⟨x, List.mem_cons_self, log, List.suffix_refl _, htrial, he⟩
    · obtain ⟨y, hy, log', hsuffix, htrial, he⟩ := ih (sameBut_attempt hpath hs) hrest
      exact ⟨y, List.mem_cons_of_mem _ hy, log', hsuffix.trans (List.suffix_append _ _), htrial, he⟩

/-! ## Rounds -/

/-- A round as it starts, before any candidate is tried. -/
def opening (goal : Goal) (path : Path) : Round := ⟨path, goal.initialBound, none⟩

/-- What a round commits: the candidate joins the commitments, and of the rest of the path only the
score changes. -/
structure Commits (demand : String) (w : Candidate) (score : Float) (path path' : Path) : Prop where
  undecided : path.isDecided demand = false
  decisions : path'.decisions = Path.put path.decisions demand w
  fixed : path'.fixed = path.fixed ++ [demand]
  trace : path'.trace = path.trace ++ Path.segment (demand, w)
  heuristicValue : path'.heuristicValue = path.heuristicValue
  totalValue : path'.totalValue = score

theorem Commits.committed {score : Float} (h : Commits demand w score path path') :
    path'.committed = path.committed ++ [(demand, w)] := by
  rw [← Path.committed_committing h.undecided]
  refine Path.committed_congr h.fixed fun d _ => ?_
  unfold Path.decision? Path.committing
  rw [h.decisions]

theorem Commits.agrees {score : Float} (h : Commits demand w score path path')
    (hpath : path.Agrees) :
    path'.Agrees :=
  (hpath.committing h.undecided w).congr h.decisions h.fixed h.trace

theorem settle_none : settle demand r = .ok none ↔ r.best = none := by
  unfold settle
  cases r.best with
  | none => simp
  | some w =>
    simp only [reduceCtorEq, iff_false]
    intro h
    obtain ⟨q, -, h⟩ := (except_bind_ok _ _ _).1 h
    cases h

theorem settle_some (hpath : Path.SameBut demand path r.path)
    (h : settle demand r = .ok (some path')) :
    ∃ w, r.best = some w ∧ Commits demand w r.bound path path' := by
  unfold settle at h
  cases hbest : r.best with
  | none => rw [hbest] at h; cases h
  | some w =>
    rw [hbest] at h
    obtain ⟨q, hcommit, h⟩ := (except_bind_ok _ _ _).1 h
    cases h
    obtain ⟨hdecided, rfl⟩ := Path.commit_ok.1 hcommit
    have hopen : r.path.isDecided demand = false := by
      rwa [Path.isDecided, Path.fixed_retract] at hdecided
    -- The last trial is taken back before the best candidate is committed.
    have hretract : r.path.retract demand =
        { r.path with decisions := Path.without demand r.path.decisions } :=
      if_neg (by rw [hopen]; exact Bool.false_ne_true)
    rw [hretract]
    refine ⟨w, rfl, ?_, ?_, ?_, ?_, hpath.heuristicValue, rfl⟩
    · rw [← hpath.isDecided]
      exact hopen
    · simp [Path.committing, Path.put, hpath.decisions]
    · exact congrArg (· ++ [demand]) hpath.fixed
    · exact congrArg (· ++ Path.segment (demand, w)) hpath.trace

theorem settle_error (hpath : Path.SameBut demand path r.path) (h : settle demand r = .error e) :
    path.isDecided demand = true := by
  unfold settle at h
  cases hbest : r.best with
  | none => rw [hbest] at h; cases h
  | some w =>
    rw [hbest] at h
    rcases hcommit : (r.path.retract demand).commit demand w with e' | q
    · have hdecided := (Path.commit_error.1 hcommit).1
      rwa [Path.isDecided, Path.fixed_retract, hpath.fixed] at hdecided
    · simp only [hcommit] at h
      cases h

theorem ends_round_ok {o : Option Path} : Ends (round p path d) log (.ok o) ↔
    ∃ log₁ log₂ pool r, log = log₁ ++ log₂ ∧
      Ends (p.survivors (path.resolving d.name) d) log₁ (.ok pool) ∧
      Ends (attempts p d.name (opening p.objective.goal (path.resolving d.name)) pool) log₂
        (.ok r) ∧
      settle d.name r = .ok o := by
  unfold round
  rw [ends_bind_ok]
  constructor
  · rintro ⟨log₁, log₂, pool, rfl, hpool, h⟩
    obtain ⟨log₂, log₃, r, rfl, hr, h⟩ := ends_bind_ok.1 h
    obtain ⟨rfl, hsettle⟩ := ends_ofExcept.1 h
    rw [List.append_nil]
    exact ⟨log₁, log₂, pool, r, rfl, hpool, hr, hsettle.symm⟩
  · rintro ⟨log₁, log₂, pool, r, rfl, hpool, hr, hsettle⟩
    refine ⟨log₁, log₂, pool, rfl, hpool,
      ends_bind_ok.2 ⟨log₂, [], r, (List.append_nil _).symm, hr, ?_⟩⟩
    exact ends_ofExcept.2 ⟨rfl, hsettle.symm⟩

/-- A round that commits has tried the survivors and commits the best of them. -/
theorem commits_of_round (h : Ends (round p path d) log (.ok (some path'))) :
    ∃ log₁ log₂ pool r w, log = log₁ ++ log₂ ∧
      Ends (p.survivors (path.resolving d.name) d) log₁ (.ok pool) ∧
      Ends (attempts p d.name (opening p.objective.goal (path.resolving d.name)) pool) log₂
        (.ok r) ∧
      r.best = some w ∧ w ∈ pool ∧ Commits d.name w r.bound path path' := by
  obtain ⟨log₁, log₂, pool, r, rfl, hpool, hr, hsettle⟩ := ends_round_ok.1 h
  have hpath := sameBut_attempts (Path.SameBut.refl _ _) hr
  obtain ⟨w, hw, hcommits⟩ := settle_some hpath hsettle
  refine ⟨log₁, log₂, pool, r, w, rfl, hpool, hr, hw,
    best_mem (Path.SameBut.refl _ _) rfl hr hw, ?_⟩
  exact ⟨hcommits.undecided, hcommits.decisions, hcommits.fixed, hcommits.trace,
    hcommits.heuristicValue, hcommits.totalValue⟩

/-- A round fails where the constraints do, or the trial of a survivor for a reason that is not in
its record. -/
theorem ends_round_error (hd : path.isDecided d.name = false)
    (h : Ends (round p path d) log (.error e)) :
    Ends (p.survivors (path.resolving d.name) d) log (.error e) ∨
      ∃ log₁ log₂ pool, log = log₁ ++ log₂ ∧
        Ends (p.survivors (path.resolving d.name) d) log₁ (.ok pool) ∧
        ∃ x ∈ pool, ∃ log', log' <:+ log₂ ∧
          Ends (trial p (path.resolving d.name) d.name x) log' (.error e) ∧
          e.isMismatch = false := by
  unfold round at h
  rcases ends_bind_error.1 h with h | ⟨log₁, log₂, pool, rfl, hpool, h⟩
  · exact .inl h
  · refine .inr ⟨log₁, log₂, pool, rfl, hpool, ?_⟩
    rcases ends_bind_error.1 h with h | ⟨log₂, log₃, r, rfl, hr, h⟩
    · exact ends_attempts_error (Path.SameBut.refl _ _) h
    · obtain ⟨-, hsettle⟩ := ends_ofExcept.1 h
      have hdecided := settle_error (sameBut_attempts (Path.SameBut.refl _ _) hr) hsettle.symm
      rw [show path.isDecided d.name = true from hdecided] at hd
      cases hd

end Greedy

end Placement
