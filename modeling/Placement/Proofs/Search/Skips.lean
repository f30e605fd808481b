import Placement.Proofs.Objective.Active
import Placement.Proofs.Search.Finite
import Placement.Proofs.Search.Lookahead
import Placement.Proofs.Search.Score

/-!
# Which leaf skips a candidate

A round commits only what it has scored, so on every path that a run gets to, each active leaf has a
value. Decisions are never taken back, so it keeps that value in all later rounds. What is left to
fail in the trial of a candidate are the leaves that became active with it, and these reference the
demand under resolution.
-/

namespace Placement

open Solving Greedy

variable {σ : Type} {engine : Engine σ} {s : σ} {plan : Plan} {p : Problem}
  {path path' trial : Path} {d : Demand} {done : List Demand} {log : List Exchange} {x : Candidate}
  {l : Measure × Params} {e : SolveError} {j k : Nat}

/-! ## What a run keeps -/

/-- Every active leaf of the objective has a value on the path. -/
def Problem.Settled (p : Problem) (engine : Engine σ) (s : σ) (path : Path) : Prop :=
  ∀ l ∈ p.objective.active path, engine.Computes s p.atlas path l

namespace Greedy

theorem settled_start (hp : p.WellFormed) : p.Settled engine s {} := by
  intro l hl
  obtain ⟨hleaf, hactive⟩ := Objective.mem_active.1 hl
  obtain ⟨d, hd⟩ := (hp.leaves l hleaf).exists_referenced
  cases List.all_eq_true.1 hactive d hd

/-- A round that commits has scored what it commits. -/
theorem settled_of_round (he : engine.Stateless) (h : Ends (round p path d) log (.ok (some path')))
    (ha : engine.Answers log) : p.Settled engine s (resting path') := by
  obtain ⟨v, hv, -⟩ := scoredBy_of_round (s := s) he h ha
  exact Objective.computes_of_evaluate he hv

theorem Reaches.settled (he : engine.Stateless) (hp : p.WellFormed) (h : Reaches p done log path)
    (ha : engine.Answers log) : p.Settled engine s path := by
  cases h with
  | start => exact settled_start hp
  | round _ hround => exact settled_of_round he hround (Engine.answers_append.1 ha).2

/-- The first rounds of a run that gets further have come to a path, with the first of its
commitments. -/
theorem Reaches.upTo (h : Reaches p (p.demands.take k) log path) (hj : j ≤ k) :
    ∃ log₁ log₂ earlier, log = log₁ ++ log₂ ∧ Reaches p (p.demands.take j) log₁ earlier ∧
      earlier.committed <+: path.committed := by
  have htake : p.demands.take j ++ (p.demands.take k).drop j = p.demands.take k := by
    have hdrop := List.take_append_drop j (p.demands.take k)
    rwa [List.take_take, Nat.min_eq_left hj] at hdrop
  have hends := h.ends
  rw [← htake, rounds_append] at hends
  obtain ⟨log₁, log₂, o, rfl, hfirst, hrest⟩ := ends_bind_ok.1 hends
  cases o with
  | none => cases (ends_pure.1 hrest).2
  | some earlier =>
    exact ⟨log₁, log₂, earlier, rfl, ends_rounds_some.1 hfirst, committed_prefix_of_rounds hrest⟩

/-- On the path that some rounds have come to, the leaves over their demands alone are active. -/
theorem Stands.isActive_iff (h : Stands done path) {ps : Params} :
    ps.isActive path = true ↔ ∀ n ∈ ps.referenced, n ∈ done.map Demand.name := by
  rw [Term.isActive_iff]
  rw [h.decisions, h.names]

/-- Where fewer rounds have come to, every active leaf has a value, and what is decided there
stands. -/
theorem Reaches.earlier (he : engine.Stateless) (hp : p.WellFormed)
    (h : Reaches p (p.demands.take k) log path) (hg : engine.Gives s log) (hj : j ≤ k) :
    ∃ earlier, (p.greedyUpTo j).outcome engine s = some (.ok (some earlier)) ∧
      Stands (p.demands.take j) earlier ∧
      p.Settled engine s earlier ∧ earlier.Keeps path := by
  obtain ⟨log₁, log₂, earlier, rfl, hreaches, hprefix⟩ := h.upTo hj
  have hgives := hg.of_append
  have hsettled := hreaches.settled (s := s) he hp (hgives.answers he)
  have hkeeps := Path.keeps_of_prefix hprefix hreaches.stands.assumed
  exact ⟨earlier, outcome_of_ends hreaches.ends hgives, hreaches.stands, hsettled, hkeeps⟩

/-- In a trial every decision of the path stands. -/
theorem keeps_of_assume (hassumed : path.assumed = [])
    (h : (path.resolving d.name).assume d.name x = .ok trial) :
    path.Keeps trial := by
  obtain ⟨hopen, rfl⟩ := Path.assume_ok.1 h
  refine Path.keeps_of_prefix ?_ hassumed
  rw [Path.committed_assuming hopen]
  exact List.prefix_refl path.committed

/-! ## Trials -/

theorem decision?_of_assume (h : (path.resolving d.name).assume d.name x = .ok trial) {n : String}
    (hn : n ≠ d.name) :
    trial.decision? n = path.decision? n := by
  obtain ⟨-, rfl⟩ := Path.assume_ok.1 h
  rw [Path.decision?_assuming, if_neg hn]
  rfl

/-- On a path on which every active leaf has a value, a leaf that fails a trial references what is
tried. -/
theorem references_of_failsFirst (hsettled : p.Settled engine s path)
    (h : (path.resolving d.name).assume d.name x = .ok trial)
    (hl : engine.FailsFirst s p.atlas trial (p.objective.active trial) l e) :
    d.name ∈ l.2.referenced := by
  by_contra hd
  -- A leaf about other demands was active before the trial, and computes what it computed then.
  obtain ⟨hleaf, hactive⟩ := Objective.mem_active.1 hl.mem
  have hagree : Path.AgreeOn l.2.referenced path trial :=
    fun n hn => (decision?_of_assume h fun hnd => hd (hnd ▸ hn)).symm
  rw [← Params.isActive_congr hagree] at hactive
  refine hl.not_computes ?_
  unfold Engine.Computes
  rw [← Measure.value_congr hagree]
  exact hsettled l (Objective.mem_active.2 ⟨hleaf, hactive⟩)

/-- A trial without a score fails as the evaluation of the objective does. -/
theorem scores_error (he : engine.Stateless) (hd : path.isDecided d.name = false)
    (h : scores p engine s path d.name x = some (.error e)) :
    ∃ trial, path.assume d.name x = .ok trial ∧
      (p.evaluate trial).outcome engine s = some (.error e) := by
  obtain ⟨log, t, ht, ha, hte⟩ := ends_of_scores he h
  rcases t with e' | q
  · cases hte
    obtain ⟨trial, hassume, herror⟩ := (ends_trial_error hd).1 ht
    exact ⟨trial, hassume, (outcome_iff he).2 ⟨log, herror, ha⟩⟩
  · cases hte

/-- A round fails where the constraints do, or where a survivor is scored, for a reason that is not
in its record. -/
theorem round_error_cases (he : engine.Stateless) (hd : path.isDecided d.name = false)
    (h : (round p path d).outcome engine s = some (.error e)) :
    (p.survivors (path.resolving d.name) d).outcome engine s = some (.error e) ∨
      ∃ pool, (p.survivors (path.resolving d.name) d).outcome engine s = some (.ok pool) ∧
        ∃ x ∈ pool, scores p engine s (path.resolving d.name) d.name x = some (.error e) ∧
          e.isMismatch = false := by
  obtain ⟨log, h, ha⟩ := (outcome_iff he).1 h
  rcases ends_round_error hd h with
    h | ⟨log₁, log₂, pool, rfl, hpool, x, hx, log', hsuffix, htrial, hmismatch⟩
  · exact .inl ((outcome_iff he).2 ⟨log, h, ha⟩)
  · obtain ⟨ha₁, ha₂⟩ := Engine.answers_append.1 ha
    have hscore := scores_of_ends (s := s) he htrial fun e he => ha₂ e (hsuffix.subset he)
    exact .inr ⟨pool, (outcome_iff he).2 ⟨log₁, hpool, ha₁⟩, x, hx, hscore, hmismatch⟩

end Greedy

/-! ## Runs by the number of rounds -/

/-- Let the first rounds have come to a path. A candidate without a score in the next round, be it
skipped or the end of the search, fails at a leaf that references the demand under resolution, the
first active one that fails. If the round itself fails, either the constraints do, or a survivor has
no score for another reason than its record. A leaf over demands that are already committed has a
value, and it is the same on the path on which they had just been committed, on the path that the
rounds have come to, and in every trial of the next round. -/
theorem Problem.skipped_for_own_leaf (hp : Problem.ofPlan plan = .ok p)
    (he : engine.Stateless) (s : σ) (hk : p.demands[k]? = some d)
    (hpath : (p.greedyUpTo k).outcome engine s = some (.ok (some path))) :
    (∀ x e, scores p engine s (path.resolving d.name) d.name x = some (.error e) →
      ∃ trial l, (path.resolving d.name).assume d.name x = .ok trial ∧
        engine.FailsFirst s p.atlas trial (p.objective.active trial) l e ∧
        d.name ∈ l.2.referenced) ∧
    (∀ e, (round p path d).outcome engine s = some (.error e) →
      (p.survivors (path.resolving d.name) d).outcome engine s = some (.error e) ∨
        ∃ pool, (p.survivors (path.resolving d.name) d).outcome engine s = some (.ok pool) ∧
          ∃ x ∈ pool, scores p engine s (path.resolving d.name) d.name x = some (.error e) ∧
            e.isMismatch = false) ∧
    ∀ j ≤ k, ∃ earlier, (p.greedyUpTo j).outcome engine s = some (.ok (some earlier)) ∧
      ∀ l ∈ Term.leavesAll p.objective.operands, (∀ n ∈ l.2.referenced, n ∈ p.names.take j) →
        ∃ v, (l.1.value p.atlas earlier l.2).outcome engine s = some (.ok v) ∧
          l ∈ p.objective.active path ∧
          (l.1.value p.atlas path l.2).outcome engine s = some (.ok v) ∧
          ∀ x trial, (path.resolving d.name).assume d.name x = .ok trial →
            l ∈ p.objective.active trial ∧
            (l.1.value p.atlas trial l.2).outcome engine s = some (.ok v) := by
  have hwf := Problem.ofPlan_wellFormed hp
  obtain ⟨log, hreaches, hgives⟩ := reaches_of_greedyUpTo hpath
  have ha := hgives.answers he
  have hd := hreaches.undecided hwf (Problem.demands_split hk)
  have hopen : (path.resolving d.name).isDecided d.name = false := hd
  refine ⟨fun x e h => ?_, fun e h => round_error_cases he hd h, fun j hj => ?_⟩
  · obtain ⟨trial, hassume, herror⟩ := scores_error he hopen h
    obtain ⟨l, hl⟩ := Objective.failsFirst_of_evaluate he herror
    exact ⟨trial, l, hassume, hl, references_of_failsFirst (hreaches.settled he hwf ha) hassume hl⟩
  · obtain ⟨earlier, hearlier, hstands, hsettled, hkeeps⟩ := hreaches.earlier he hwf hgives hj
    refine ⟨earlier, hearlier, fun l hl hnames => ?_⟩
    rw [Problem.names, ← List.map_take] at hnames
    have hlactive := hstands.isActive_iff.2 hnames
    obtain ⟨v, hv⟩ := hsettled l (Objective.mem_active.2 ⟨hl, hlactive⟩)
    refine ⟨v, hv, Objective.mem_active.2 ⟨hl, hkeeps.isActive hlactive⟩, ?_,
      fun x trial hassume => ?_⟩
    · rw [hkeeps.value_eq _ _ hlactive, hv]
    · have htrial := hkeeps.trans (keeps_of_assume hreaches.stands.assumed hassume)
      refine ⟨Objective.mem_active.2 ⟨hl, htrial.isActive hlactive⟩, ?_⟩
      rw [htrial.value_eq _ _ hlactive, hv]

/-! ## A candidate that is skipped -/

/-- The sum of two scores is sought, and one candidate for the second demand has none in its
record. -/
def Plan.gappySites : Plan where
  demands := [⟨"a", [.rated "a1" (.int 1)], 0⟩, ⟨"b", [.eastern "b1" 1.0, .rated "b2" (.int 2)], 0⟩]
  constraints := []
  objective := ⟨.minimize, .mk "sum"
    [.mk (some "attribute") (some { demand := some "a", key := some "score" }) none {},
      .mk (some "attribute") (some { demand := some "b", key := some "score" }) none {}]⟩
  atlas := {}

def Problem.gappySites : Problem where
  demands := Plan.gappySites.demands
  constraints := []
  objective := ⟨.minimize, .sum,
    [.leaf .field { demand := some "a", key := some "score" } {},
      .leaf .field { demand := some "b", key := some "score" } {}]⟩
  atlas := {}

theorem Problem.ofPlan_gappySites : Problem.ofPlan .gappySites = .ok .gappySites :=
  Problem.ofPlan_sorted rfl rfl rfl rfl (by decide) (by decide)

/-- A candidate of which it can be evaluated that it has no score. -/
theorem Greedy.Scores.unscorable {score : Scores}
    (h : (match score x with
      | some (.error e) => e.isMismatch
      | _ => false) = true) : score.Unscorable x := by
  split at h
  · next e he => exact ⟨e, he, h⟩
  · cases h

theorem Problem.skipped_for_own_leaf_gappySites :
    ∃ path, (Problem.gappySites.greedyUpTo 1).outcome Engine.recorded () = some (.ok (some path)) ∧
      (scores .gappySites Engine.recorded () (path.resolving "b") "b").Unscorable
        (.eastern "b1" 1.0) ∧
      ∃ trial l e, (path.resolving "b").assume "b" (.eastern "b1" 1.0) = .ok trial ∧
        Engine.recorded.FailsFirst () {} trial (Problem.gappySites.objective.active trial) l e ∧
          "b" ∈ l.2.referenced ∧
            ∃ v, (Measure.field.value {} trial { demand := some "a", key := some "score" }).outcome
              Engine.recorded () = some (.ok v) := by
  obtain ⟨path, hpath, htest⟩ :=
    exists_path (o := (Problem.gappySites.greedyUpTo 1).outcome Engine.recorded ())
    (fun path =>
      match scores .gappySites Engine.recorded () (path.resolving "b") "b" (.eastern "b1" 1.0) with
      | some (.error e) => e.isMismatch
      | _ => false) (by decide +kernel)
  obtain ⟨e, he, hmismatch⟩ := Scores.unscorable htest
  obtain ⟨hskips, -, hstays⟩ :=
    Problem.skipped_for_own_leaf Problem.ofPlan_gappySites Engine.stateless_recorded ()
    (k := 1) rfl hpath
  obtain ⟨trial, l, hassume, hfails, hb⟩ := hskips _ _ he
  obtain ⟨earlier, -, hvalues⟩ := hstays 1 (Nat.le_refl 1)
  obtain ⟨v, -, -, -, htrial⟩ := hvalues _ List.mem_cons_self (by decide)
  exact ⟨path, hpath, ⟨e, he, hmismatch⟩, trial, l, e, hassume, hfails, hb, v,
    (htrial _ _ hassume).2⟩

end Placement
