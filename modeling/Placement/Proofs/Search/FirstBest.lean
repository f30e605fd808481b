import Placement.Proofs.Decimal.Order
import Placement.Proofs.Engine.Stateless
import Placement.Proofs.Search.Run

/-!
# What a greedy round commits

Against an engine without memory every candidate has one score in a round, and a round commits the
first of the best ones: no survivor has a better score, and every survivor before it has a worse one
or none that counts. The loop keeps `Leads`, which says the same of the candidates tried so far.
-/

namespace Placement

open Solving

/-! ## Better scores -/

namespace Goal

variable {g : Goal} {u v w : Float}

theorem isBetter_self (g : Goal) (v : Float) : g.isBetter v v = false := by
  unfold isBetter
  cases g with
  | minimize => exact decide_eq_false (Decimal.not_lt_self v)
  | maximize => exact decide_eq_false (Decimal.not_lt_self v)

theorem isBetter_trans (huv : g.isBetter u v = true) (hvw : g.isBetter v w = true) :
    g.isBetter u w = true := by
  unfold isBetter at *
  cases g with
  | minimize =>
    exact decide_eq_true (Decimal.lt_of_lt_of_lt (of_decide_eq_true huv) (of_decide_eq_true hvw))
  | maximize =>
    exact decide_eq_true (Decimal.lt_of_lt_of_lt (of_decide_eq_true hvw) (of_decide_eq_true huv))

/-- A score that beats what another one does not beat is better than the other, unless that is a
NaN. -/
theorem isBetter_of_not_isBetter (huw : g.isBetter u w = true) (hvw : g.isBetter v w = false)
    (hv : v.isNaN = false) : g.isBetter u v = true := by
  unfold isBetter at *
  cases g with
  | minimize =>
    exact decide_eq_true
      (Decimal.lt_of_lt_of_not_lt (of_decide_eq_true huw) (of_decide_eq_false hvw) hv)
  | maximize =>
    exact decide_eq_true
      (Decimal.lt_of_not_lt_of_lt (of_decide_eq_true huw) (of_decide_eq_false hvw) hv)

end Goal

namespace Greedy

/-! ## The first of the best -/

/-- How the trials of candidates end: with a score, with an error, or not at all. -/
abbrev Scores := Candidate → Option (Except SolveError Float)

/-- The trial fails for what the candidate's record lacks. -/
def Scores.Unscorable (score : Scores) (x : Candidate) : Prop :=
  ∃ e, score x = some (.error e) ∧ e.isMismatch = true

/-- The candidate has a score that beats the bound with which a round starts. -/
def Scores.Eligible (score : Scores) (g : Goal) (x : Candidate) : Prop :=
  ∃ v, score x = some (.ok v) ∧ g.isBetter v g.initialBound = true

/-- `w` with the score `v` is eligible and the first of the pool with a score that is not beaten. -/
structure FirstBest (g : Goal) (score : Scores) (pool : List Candidate) (w : Candidate)
    (v : Float) : Prop where
  scored : score w = some (.ok v)
  eligible : g.isBetter v g.initialBound = true
  unbeaten : ∀ x ∈ pool, ∀ u, score x = some (.ok u) → g.isBetter u v = false
  first : ∃ before after, pool = before ++ w :: after ∧ ∀ x ∈ before,
    score.Unscorable x ∨ ∃ u, score x = some (.ok u) ∧ (u.isNaN = true ∨ g.isBetter v u = true)

/-- What a round knows of the candidates it has tried: each has a score or is unscorable, the best
one so far is the first best of them, and without a best one none is eligible. -/
structure Leads (g : Goal) (score : Scores) (seen : List Candidate) (r : Round) : Prop where
  tried : ∀ x ∈ seen, (∃ u, score x = some (.ok u)) ∨ score.Unscorable x
  ofNone : r.best = none → r.bound = g.initialBound ∧ ∀ x ∈ seen, ¬ score.Eligible g x
  ofSome : ∀ w, r.best = some w → FirstBest g score seen w r.bound

variable {g : Goal} {score : Scores} {seen pool : List Candidate} {r r' : Round} {x w : Candidate}
  {v : Float}

theorem FirstBest.mem (h : FirstBest g score pool w v) : w ∈ pool := by
  obtain ⟨before, after, rfl, -⟩ := h.first
  exact List.mem_append_right _ List.mem_cons_self

theorem leads_opening (g : Goal) (score : Scores) (path : Path) :
    Leads g score [] (opening g path) :=
  ⟨fun _ h => (nomatch h), fun _ => ⟨rfl, fun _ h => (nomatch h)⟩, fun _ h => (nomatch h)⟩

/-- Nothing tried so far beats the bound. -/
theorem Leads.not_isBetter (h : Leads g score seen r) {u : Float} (hx : x ∈ seen)
    (hu : score x = some (.ok u)) :
    g.isBetter u r.bound = false := by
  cases hbest : r.best with
  | some w => exact (h.ofSome w hbest).unbeaten x hx u hu
  | none =>
    obtain ⟨hbound, hnone⟩ := h.ofNone hbest
    rw [hbound, ← Bool.not_eq_true]
    exact fun hbetter => hnone x hx ⟨u, hu, hbetter⟩

/-- The bound is no worse than the one with which the round started. -/
theorem Leads.isBetter_initialBound (h : Leads g score seen r) (hv : g.isBetter v r.bound = true) :
    g.isBetter v g.initialBound = true := by
  cases hbest : r.best with
  | some w => exact Goal.isBetter_trans hv (h.ofSome w hbest).eligible
  | none => rwa [(h.ofNone hbest).1] at hv

/-- A candidate that beats the bound is the first best from then on. -/
theorem Leads.firstBest (h : Leads g score seen r) (hx : score x = some (.ok v))
    (hv : g.isBetter v r.bound = true) :
    FirstBest g score (seen ++ [x]) x v := by
  refine ⟨hx, h.isBetter_initialBound hv, fun y hy u hu => ?_, seen, [], rfl, fun y hy => ?_⟩
  · rcases List.mem_append.1 hy with hy | hy
    · rw [← Bool.not_eq_true]
      intro huv
      have hbound := h.not_isBetter hy hu
      rw [Goal.isBetter_trans huv hv] at hbound
      cases hbound
    · rw [List.mem_singleton.1 hy, hx] at hu
      cases hu
      exact g.isBetter_self v
  · rcases h.tried y hy with ⟨u, hu⟩ | hun
    · refine .inr ⟨u, hu, ?_⟩
      cases hnan : u.isNaN with
      | true => exact .inl rfl
      | false => exact .inr (Goal.isBetter_of_not_isBetter hv (h.not_isBetter hy hu) hnan)
    · exact .inl hun

/-- A candidate that does not beat the bound leaves the lead as it is. -/
theorem FirstBest.snoc (h : FirstBest g score seen w v)
    (hx : ∀ u, score x = some (.ok u) → g.isBetter u v = false) :
    FirstBest g score (seen ++ [x]) w v := by
  obtain ⟨before, after, rfl, hbefore⟩ := h.first
  refine ⟨h.scored, h.eligible, fun y hy u hu => ?_, before, after ++ [x], by simp, hbefore⟩
  rcases List.mem_append.1 hy with hy | hy
  · exact h.unbeaten y hy u hu
  · rw [List.mem_singleton.1 hy] at hu
    exact hx u hu

theorem Leads.snoc (h : Leads g score seen r)
    (htried : (∃ u, score x = some (.ok u)) ∨ score.Unscorable x)
    (hx : ∀ u, score x = some (.ok u) → g.isBetter u r.bound = false) (path : Path) :
    Leads g score (seen ++ [x]) { r with path := path } := by
  refine ⟨fun y hy => ?_, fun hbest => ?_, fun w hbest => (h.ofSome w hbest).snoc hx⟩
  · rcases List.mem_append.1 hy with hy | hy
    · exact h.tried y hy
    · rw [List.mem_singleton.1 hy]
      exact htried
  · obtain ⟨hbound, hnone⟩ := h.ofNone hbest
    refine ⟨hbound, fun y hy => ?_⟩
    rcases List.mem_append.1 hy with hy | hy
    · exact hnone y hy
    · rw [List.mem_singleton.1 hy]
      rintro ⟨u, hu, hbetter⟩
      have hworse := hx u hu
      rw [hbound, hbetter] at hworse
      cases hworse

/-- One attempt keeps the lead. -/
theorem Leads.step {demand : String} {s : Except SolveError Path} (h : Leads g score seen r)
    (hs : score x = some (s.map Path.totalValue)) (htried : Tried g demand r x s r') :
    Leads g score (seen ++ [x]) r' := by
  cases htried with
  | @better scored hbetter =>
    refine ⟨fun y hy => ?_, fun hbest => (nomatch hbest), fun w hbest => ?_⟩
    · rcases List.mem_append.1 hy with hy | hy
      · exact h.tried y hy
      · rw [List.mem_singleton.1 hy]
        exact .inl ⟨_, hs⟩
    · cases hbest
      exact h.firstBest hs hbetter
  | notBetter hworse =>
    refine h.snoc (.inl ⟨_, hs⟩) (fun u hu => ?_) _
    rw [hs] at hu
    cases hu
    exact hworse
  | mismatch he _ =>
    refine h.snoc (.inr ⟨_, hs, he⟩) (fun u hu => ?_) _
    rw [hs] at hu
    cases hu

/-! ## Rounds against an engine without memory -/

section

variable {σ : Type} {engine : Engine σ} {s : σ} {p : Problem} {path path' : Path} {demand : String}
  {d : Demand} {log : List Exchange}

/-- The scores that an engine leads to when the candidates are tried for a demand. -/
def scores (p : Problem) (engine : Engine σ) (s : σ) (path : Path) (demand : String) : Scores :=
  fun x => ((trial p path demand x).outcome engine s).map fun t => t.map Path.totalValue

theorem scores_of_ends (he : engine.Stateless) {t : Except SolveError Path}
    (h : Ends (trial p path demand x) log t) (ha : engine.Answers log) :
    scores p engine s path demand x = some (t.map Path.totalValue) := by
  unfold scores
  rw [(outcome_iff he).2 ⟨log, h, ha⟩]
  rfl

theorem ends_of_scores (he : engine.Stateless) {u : Except SolveError Float}
    (h : scores p engine s path demand x = some u) :
    ∃ log t, Ends (trial p path demand x) log t ∧ engine.Answers log ∧
      u = t.map Path.totalValue := by
  unfold scores at h
  obtain ⟨t, ht, hu⟩ := Option.map_eq_some_iff.1 h
  obtain ⟨log, hlog, ha⟩ := (outcome_iff he).1 ht
  exact ⟨log, t, hlog, ha, hu.symm⟩

/-- The attempts of a round keep the lead over the whole pool. -/
theorem leads_of_attempts (he : engine.Stateless) (g : Goal) (hg : p.objective.goal = g)
    (h : Ends (attempts p demand (opening g path) pool) log (.ok r)) (ha : engine.Answers log) :
    Leads g (scores p engine s path demand) pool r := by
  refine (attempts_induction ?_ [] (List.Subset.refl log) (Path.SameBut.refl demand path)
    (leads_opening g _ path) h).2
  intro seen x r r' log' hsub hpath hleads hx
  obtain ⟨t, ht, htried⟩ := ends_attempt_ok.1 hx
  rw [trial_congr hpath] at ht
  rw [hg] at htried
  exact hleads.step (scores_of_ends he ht fun e hm => ha e (hsub hm)) htried

/-- Where every candidate has a score or is unscorable, the attempts come to their end. -/
theorem ends_attempts_of_tried (he : engine.Stateless) (hd : path.isDecided demand = false) :
    ∀ {pool : List Candidate} {r : Round}, Path.SameBut demand path r.path →
      (∀ x ∈ pool, (∃ u, scores p engine s path demand x = some (.ok u)) ∨
        (scores p engine s path demand).Unscorable x) →
      ∃ log r', Ends (attempts p demand r pool) log (.ok r') ∧ engine.Answers log
  | [], r, _, _ => ⟨[], r, ends_pure.2 ⟨rfl, rfl⟩, fun _ h => (nomatch h)⟩
  | x :: pool, r, hpath, htried => by
    have hx : ∃ log r', Ends (attempt p demand r x) log (.ok r') ∧ engine.Answers log := by
      rcases htried x List.mem_cons_self with ⟨u, hu⟩ | ⟨e, hu, he'⟩
      · obtain ⟨log, t, ht, ha, htu⟩ := ends_of_scores he hu
        rw [← trial_congr hpath] at ht
        rcases t with e | scored
        · cases htu
        · cases hbetter : p.objective.goal.isBetter scored.totalValue r.bound with
          | true => exact ⟨log, _, ends_attempt_ok.2 ⟨_, ht, .better hbetter⟩, ha⟩
          | false => exact ⟨log, _, ends_attempt_ok.2 ⟨_, ht, .notBetter hbetter⟩, ha⟩
      · obtain ⟨log, t, ht, ha, htu⟩ := ends_of_scores he hu
        rw [← trial_congr hpath] at ht
        rcases t with e' | scored
        · cases htu
          have hassumed := (Path.assume_ok (x := x)).2 ⟨(hpath.isDecided demand).trans hd, rfl⟩
          exact ⟨log, _, ends_attempt_ok.2 ⟨_, ht, .mismatch he' hassumed⟩, ha⟩
        · cases htu
    obtain ⟨log₁, r₁, hx, ha₁⟩ := hx
    obtain ⟨log₂, r₂, hpool, ha₂⟩ := ends_attempts_of_tried he hd (sameBut_attempt hpath hx)
      fun y hy => htried y (List.mem_cons_of_mem _ hy)
    exact ⟨log₁ ++ log₂, r₂, ends_bind_ok.2 ⟨log₁, log₂, r₁, rfl, hx, hpool⟩,
      Engine.answers_append.2 ⟨ha₁, ha₂⟩⟩

/-- A round commits the first best of the survivors. -/
theorem firstBest_of_round (he : engine.Stateless)
    (h : Ends (round p path d) log (.ok (some path'))) (ha : engine.Answers log) :
    ∃ pool w v, (p.survivors (path.resolving d.name) d).outcome engine s = some (.ok pool) ∧
      FirstBest p.objective.goal (scores p engine s (path.resolving d.name) d.name) pool w v ∧
        Commits d.name w v path path' := by
  obtain ⟨log₁, log₂, pool, r, w, rfl, hpool, hr, hw, -, hcommits⟩ := commits_of_round h
  obtain ⟨ha₁, ha₂⟩ := Engine.answers_append.1 ha
  have hleads := leads_of_attempts (s := s) he p.objective.goal rfl hr ha₂
  exact ⟨pool, w, r.bound, (outcome_iff he).2 ⟨log₁, hpool, ha₁⟩, hleads.ofSome w hw, hcommits⟩

/-- Where every survivor has a score or is unscorable, a round ends without an error. -/
theorem outcome_round_of_tried (he : engine.Stateless) (hd : path.isDecided d.name = false)
    (hpool : (p.survivors (path.resolving d.name) d).outcome engine s = some (.ok pool))
    (htried : ∀ x ∈ pool, (∃ u, scores p engine s (path.resolving d.name) d.name x = some (.ok u)) ∨
      (scores p engine s (path.resolving d.name) d.name).Unscorable x) :
    ∃ o, (round p path d).outcome engine s = some (.ok o) := by
  obtain ⟨log₁, hpool, ha₁⟩ := (outcome_iff he).1 hpool
  have hopen : (path.resolving d.name).isDecided d.name = false := hd
  obtain ⟨log₂, r, hr, ha₂⟩ := ends_attempts_of_tried he hopen
    (r := opening p.objective.goal (path.resolving d.name)) (Path.SameBut.refl _ _) htried
  have ha := Engine.answers_append.2 ⟨ha₁, ha₂⟩
  rcases hsettle : settle d.name r with e | o
  · have hdecided := settle_error (sameBut_attempts (Path.SameBut.refl _ _) hr) hsettle
    cases hopen.symm.trans hdecided
  · have hround := ends_round_ok.2 ⟨log₁, log₂, pool, r, rfl, hpool, hr, hsettle⟩
    exact ⟨o, (outcome_iff he).2 ⟨_, hround, ha⟩⟩

/-- A round commits nothing exactly when no survivor is eligible, none raising an error. -/
theorem round_none_iff (he : engine.Stateless) (hd : path.isDecided d.name = false) :
    (round p path d).outcome engine s = some (.ok none) ↔
      ∃ pool, (p.survivors (path.resolving d.name) d).outcome engine s = some (.ok pool) ∧
        ∀ x ∈ pool, ((∃ u, scores p engine s (path.resolving d.name) d.name x = some (.ok u)) ∨
          (scores p engine s (path.resolving d.name) d.name).Unscorable x) ∧
            ¬ (scores p engine s (path.resolving d.name) d.name).Eligible p.objective.goal x := by
  constructor
  · intro h
    obtain ⟨log, h, ha⟩ := (outcome_iff he).1 h
    obtain ⟨log₁, log₂, pool, r, rfl, hpool, hr, hsettle⟩ := ends_round_ok.1 h
    obtain ⟨ha₁, ha₂⟩ := Engine.answers_append.1 ha
    have hleads := leads_of_attempts (s := s) he p.objective.goal rfl hr ha₂
    obtain ⟨-, hnone⟩ := hleads.ofNone (settle_none.1 hsettle)
    exact ⟨pool, (outcome_iff he).2 ⟨log₁, hpool, ha₁⟩, fun x hx => ⟨hleads.tried x hx, hnone x hx⟩⟩
  · rintro ⟨pool, hpool, htried⟩
    obtain ⟨o, ho⟩ := outcome_round_of_tried he hd hpool fun x hx => (htried x hx).1
    cases o with
    | none => exact ho
    | some path' =>
      obtain ⟨log, hround, ha⟩ := (outcome_iff he).1 ho
      obtain ⟨pool', w, v, hpool', hbest, -⟩ := firstBest_of_round (s := s) he hround ha
      cases hpool.symm.trans hpool'
      exact absurd ⟨v, hbest.scored, hbest.eligible⟩ (htried w hbest.mem).2

end

end Greedy

/-! ## Greedy runs -/

section

variable {σ : Type} {engine : Engine σ} {plan : Plan} {p : Problem} {d : Demand} {k : Nat}

open Greedy

/-- Every round that commits, on whatever path, commits the first best of the survivors. The search
comes to nothing exactly when some round, the ones before it having committed, meets no error and no
eligible survivor. A path that is returned commits every demand once, in the order of resolution. -/
theorem Problem.greedy_commits_first_best (hp : Problem.ofPlan plan = .ok p) (he : engine.Stateless)
    (s : σ) :
    (∀ d path path', (round p path d).outcome engine s = some (.ok (some path')) →
      ∃ pool w v, (p.survivors (path.resolving d.name) d).outcome engine s = some (.ok pool) ∧
        FirstBest p.objective.goal (scores p engine s (path.resolving d.name) d.name) pool w v ∧
          path'.committed = path.committed ++ [(d.name, w)]) ∧
    (p.greedy.outcome engine s = some (.ok none) ↔
      ∃ k d path pool, p.demands[k]? = some d ∧
        (p.greedyUpTo k).outcome engine s = some (.ok (some path)) ∧
        (p.survivors (path.resolving d.name) d).outcome engine s = some (.ok pool) ∧
          ∀ x ∈ pool, ((∃ u, scores p engine s (path.resolving d.name) d.name x = some (.ok u)) ∨
            (scores p engine s (path.resolving d.name) d.name).Unscorable x) ∧
              ¬ (scores p engine s (path.resolving d.name) d.name).Eligible p.objective.goal x) ∧
    ∀ path, p.greedy.outcome engine s = some (.ok (some path)) →
      path.committed.map Prod.fst = p.names ∧ p.names.Nodup ∧
      p.names.Perm (plan.demands.map Demand.name) := by
  have hwf := Problem.ofPlan_wellFormed hp
  refine ⟨fun d path path' hround => ?_, ⟨fun h => ?_, ?_⟩, fun path h => ?_⟩
  · obtain ⟨log, hround, ha⟩ := (outcome_iff he).1 hround
    obtain ⟨pool, w, v, hpool, hbest, hcommits⟩ := firstBest_of_round (s := s) he hround ha
    exact ⟨pool, w, v, hpool, hbest, hcommits.committed⟩
  · obtain ⟨log, h, ha⟩ := (outcome_iff he).1 h
    obtain ⟨ds₁, d, ds₂, log₁, log₂, path, hds, rfl, hreaches, hround⟩ :=
      (ends_rounds_stop (by simp)).1 h
    obtain ⟨ha₁, ha₂⟩ := Engine.answers_append.1 ha
    have hd := hreaches.undecided hwf hds
    obtain ⟨pool, hpool, hnone⟩ :=
      (round_none_iff he hd).1 ((outcome_iff (s := s) he).2 ⟨log₂, hround, ha₂⟩)
    exact ⟨ds₁.length, d, path, pool, Problem.demand_of_split hds,
      hreaches.greedyUpTo (ha₁.gives s) hds, hpool, hnone⟩
  · rintro ⟨k, d, path, pool, hk, hpath, hpool, hnone⟩
    have hds := Problem.demands_split hk
    obtain ⟨log₁, hreaches, hgives⟩ := reaches_of_greedyUpTo hpath
    have hd := hreaches.undecided hwf hds
    obtain ⟨log₂, hround, ha₂⟩ := (outcome_iff he).1 ((round_none_iff he hd).2 ⟨pool, hpool, hnone⟩)
    refine (outcome_iff he).2 ⟨log₁ ++ log₂, ?_, Engine.answers_append.2 ⟨hgives.answers he, ha₂⟩⟩
    exact (ends_rounds_stop (by simp)).2 ⟨_, d, _, log₁, log₂, path, hds, rfl, hreaches, hround⟩
  · obtain ⟨log, h, -⟩ := (outcome_iff he).1 h
    have hreaches := ends_rounds_some.1 h
    exact ⟨hreaches.stands.names, hwf.names, Problem.names_perm hp⟩

theorem Problem.greedy_commits_first_best_twoSites :
    ∃ path', (round .twoSites {} ⟨"a", [.eastern "a1" 3.0, .eastern "a2" 1.0], 0⟩).outcome
        Engine.recorded () = some (.ok (some path')) ∧
      path'.trace = "a:a2>" ∧
      ∃ pool w v, (Problem.twoSites.survivors (Path.resolving {} "a")
          ⟨"a", [.eastern "a1" 3.0, .eastern "a2" 1.0], 0⟩).outcome Engine.recorded () =
            some (.ok pool) ∧
        FirstBest .minimize (scores .twoSites Engine.recorded () (Path.resolving {} "a") "a")
          pool w v ∧
        path'.committed = [("a", w)] := by
  obtain ⟨hround, -⟩ :=
    Problem.greedy_commits_first_best Problem.ofPlan_twoSites Engine.stateless_recorded ()
  obtain ⟨path', h, htrace⟩ := exists_path
    (o := (round .twoSites {} ⟨"a", [.eastern "a1" 3.0, .eastern "a2" 1.0], 0⟩).outcome
      Engine.recorded ())
    (fun path => path.trace == "a:a2>") (by decide +kernel)
  exact ⟨path', h, eq_of_beq htrace, hround _ _ _ h⟩

end

end Placement
