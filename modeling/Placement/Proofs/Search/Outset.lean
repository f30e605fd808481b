import Placement.Proofs.Search.Skips
import Placement.Proofs.Search.Totals

/-!
# What a round finds

Trials come and go within a round: a candidate is assumed in place of the one before it, scored or
passed over, and the winner may be the first or the last of them. Nothing of this is left when the
constraints are applied for the next demand. The path then holds the commitments of the rounds
before, in their order, and no other decision, and all that a search does not use is zero. In no
conversation are the constraints of a greedy search applied to any other path.
-/

namespace Placement

open Solving Greedy

/-! ## Computations that differ where they never get -/

section

variable {α β : Type}

theorem Consult.bind_congr_of_ends {x : Consult α} {f g : α → Consult β}
    (h : ∀ log a, Ends x log a → f a = g a) :
    x >>= f = x >>= g := by
  induction x with
  | done a => exact h [] a (.done a)
  | ask q next ih =>
    rw [ask_bind, ask_bind]
    exact congrArg (ask q) (funext fun r => ih r fun log a ha => h (⟨q, r⟩ :: log) a (.ask ha))

/-- What follows a computation need only agree on the values with which it can end. -/
theorem Solving.bind_congr_of_ends {x : Solving α} {f g : α → Solving β}
    (h : ∀ log a, Ends x log (.ok a) → f a = g a) : x >>= f = x >>= g := by
  have hrun : x.run >>= ExceptT.bindCont f = x.run >>= ExceptT.bindCont g := by
    refine Consult.bind_congr_of_ends fun log r hr => ?_
    cases r with
    | error e => rfl
    | ok a => exact h log a hr
  exact hrun

end

variable {σ : Type} {engine : Engine σ} {s : σ} {plan : Plan} {p : Problem} {path path' : Path}
  {d : Demand} {done ds : List Demand} {log : List Exchange} {j k : Nat}
  {apply : Path → Demand → Solving (List Candidate)}

namespace Greedy

/-- The path on which the constraints on a demand are applied, the rounds for some demands being
over: these are committed to the candidates `ws`, one each, and nothing else is decided, not even
for the time being. -/
structure Outset (done : List Demand) (ws : List Candidate) (d : Demand) (path : Path) : Prop where
  one : ws.length = done.length
  committed : path.committed = (done.map Demand.name).zip ws
  decisions : path.decisions.map Prod.fst = done.map Demand.name
  assumed : path.assumed = []
  current : path.current = some d.name
  undecided : path.isDecided d.name = false
  trace : path.trace = String.join (List.zipWith (fun e w => e.name ++ ":" ++ w.id ++ ">") done ws)
  cumulatedCost : path.cumulatedCost = 0.0
  heuristicValue : path.heuristicValue = 0.0
  heuristicCost : path.heuristicCost = 0.0
  totalCost : path.totalCost = 0.0

/-! ## Rounds leave costs alone -/

theorem costs_of_round (h : Ends (round p path d) log (.ok (some path'))) :
    path'.cumulatedCost = path.cumulatedCost ∧ path'.heuristicCost = path.heuristicCost := by
  obtain ⟨log₁, log₂, pool, r, rfl, -, hr, hsettle⟩ := ends_round_ok.1 h
  have hsame := sameBut_attempts (Path.SameBut.refl _ _) hr
  obtain ⟨-, hcumulated, hheuristic, -⟩ := settle_frame hsettle
  exact ⟨hcumulated.trans hsame.cumulatedCost, hheuristic.trans hsame.heuristicCost⟩

theorem Reaches.costs (h : Reaches p done log path) :
    path.cumulatedCost = 0.0 ∧ path.heuristicCost = 0.0 := by
  induction h with
  | start => exact ⟨rfl, rfl⟩
  | round _ hround ih =>
    obtain ⟨hcumulated, hheuristic⟩ := costs_of_round hround
    exact ⟨hcumulated.trans ih.1, hheuristic.trans ih.2⟩

theorem Reaches.totalCost (h : Reaches p done log path) : path.totalCost = 0.0 := by
  obtain ⟨hcumulated, hheuristic⟩ := h.costs
  have hsum := h.costsAddUp
  unfold CostsAddUp at hsum
  rw [hsum, hcumulated, hheuristic]
  decide +kernel

/-! ## The outset of a round -/

theorem Stands.committed_eq (h : Stands done path) :
    path.committed = (done.map Demand.name).zip (path.committed.map Prod.snd) := by
  rw [← h.names]
  exact List.zip_of_prod rfl rfl

theorem Stands.trace_eq (h : Stands done path) : path.trace =
    String.join (List.zipWith (fun e w => e.name ++ ":" ++ w.id ++ ">") done
      (path.committed.map Prod.snd)) := by
  rw [h.agrees.trace]
  conv_lhs => rw [h.committed_eq]
  rw [List.zip_map_left, List.map_map, List.zip, List.map_zipWith]
  rfl

/-- Wherever a run gets, the next round finds the commitments of the rounds before and nothing
else. -/
theorem Reaches.outset (hp : p.WellFormed) (h : Reaches p done log path)
    (hds : p.demands = done ++ d :: ds) :
    Outset done (path.committed.map Prod.snd) d (path.resolving d.name) := by
  have hstands := h.stands
  have hlength := congrArg List.length hstands.names
  rw [List.length_map, List.length_map] at hlength
  have hundecided : path.isDecided d.name = false := h.undecided hp hds
  refine ⟨by rw [List.length_map, hlength], hstands.committed_eq, ?_, hstands.assumed, rfl,
    hundecided, hstands.trace_eq, h.costs.1, hstands.heuristicValue, h.costs.2, h.totalCost⟩
  rw [show (path.resolving d.name).decisions = path.committed from hstands.decisions]
  exact hstands.names

/-! ## Constraints applied in another way -/

/-- The round for a demand, the constraints being applied in a way of its own. -/
def roundBy (apply : Path → Demand → Solving (List Candidate)) (p : Problem) (path : Path)
    (d : Demand) :
    Solving (Option Path) := do
  let path := path.resolving d.name
  let pool ← apply path d
  let r ← attempts p d.name (opening p.objective.goal path) pool
  Solving.ofExcept (settle d.name r)

def roundsBy (apply : Path → Demand → Solving (List Candidate)) (p : Problem) (path : Path) :
    List Demand → Solving (Option Path)
  | [] => pure (some (resting path))
  | d :: ds => do
    match ← roundBy apply p path d with
    | none => pure none
    | some path => roundsBy apply p path ds

/-- A run whose constraints are applied as they should be where a round may find itself is the run
it should be. -/
theorem roundsBy_eq (hp : p.WellFormed)
    (happly : ∀ done d ds ws path, p.demands = done ++ d :: ds → Outset done ws d path →
      apply path d = p.survivors path d) :
    ∀ (ds : List Demand) {done : List Demand} {log : List Exchange} {path : Path},
      p.demands = done ++ ds →
      Reaches p done log (resting path) → roundsBy apply p path ds = rounds p path ds
  | [], done, log, path, hds, h => rfl
  | d :: ds, done, log, path, hds, h => by
    have houtset := h.outset hp hds
    have hpool : apply (path.resolving d.name) d = p.survivors (path.resolving d.name) d :=
      happly done d ds _ _ hds houtset
    have hround : roundBy apply p path d = round p path d := by
      unfold roundBy
      simp only [hpool]
      rfl
    unfold roundsBy rounds
    rw [hround]
    -- The rounds that follow agree on every path with which this one can end.
    refine bind_congr_of_ends fun log' o ho => ?_
    cases o with
    | none => rfl
    | some path' =>
      exact roundsBy_eq hp happly ds (by rw [hds, List.append_assoc]; rfl) (h.round ho)

/-- The rounds of a run before one that it gets to have found the first of its commitments. -/
theorem Reaches.outset_upTo (hp : p.WellFormed) (h : Reaches p (p.demands.take k) log path)
    (hg : engine.Gives s log) (hj : j ≤ k) (hd : p.demands[j]? = some d) :
    ∃ earlier, (p.greedyUpTo j).outcome engine s = some (.ok (some earlier)) ∧
      Outset (p.demands.take j) ((path.committed.map Prod.snd).take j) d
        (earlier.resolving d.name) := by
  obtain ⟨log₁, log₂, earlier, rfl, hreaches, hprefix⟩ := h.upTo hj
  have houtset := hreaches.outset hp (Problem.demands_split hd)
  have hcommitted : earlier.committed = path.committed.take j := by
    have hlength := houtset.one
    obtain ⟨hlt, -⟩ := List.getElem?_eq_some_iff.1 hd
    rw [List.length_map, List.length_take_of_le hlt.le] at hlength
    rw [← hlength]
    exact List.prefix_iff_eq_take.1 hprefix
  refine ⟨earlier, outcome_of_ends hreaches.ends hg.of_append, ?_⟩
  rw [← List.map_take, ← hcommitted]
  exact houtset

end Greedy

/-- Let a greedy search on an accepted plan come to the round for its demand number `k`, counted
from zero, against whatever engine. The path on which it then applies the constraints holds one
commitment for each of the `k` demands before, in their order, and no other decision; the demand
under resolution is the one of the round and is not decided, the trace consists of the commitments,
and all costs and estimates are zero. The rounds before have found the first of these commitments in
the same way. And there are no other paths on which constraints are applied: whoever applies them as
they should be on such paths, and on all others as he likes, performs the very search. -/
theorem Problem.constraints_at_outset (hp : Problem.ofPlan plan = .ok p) (engine : Engine σ)
    (s : σ) :
    (∀ k d path, p.demands[k]? = some d →
      (p.greedyUpTo k).outcome engine s = some (.ok (some path)) →
      ∃ ws, Outset (p.demands.take k) ws d (path.resolving d.name) ∧
        ∀ j ≤ k, ∀ e, p.demands[j]? = some e → ∃ earlier,
          (p.greedyUpTo j).outcome engine s = some (.ok (some earlier)) ∧
            Outset (p.demands.take j) (ws.take j) e (earlier.resolving e.name)) ∧
    ∀ apply : Path → Demand → Solving (List Candidate),
      (∀ k d ws path, p.demands[k]? = some d → Outset (p.demands.take k) ws d path →
        apply path d = p.survivors path d) → roundsBy apply p {} p.demands = p.greedy := by
  have hwf := Problem.ofPlan_wellFormed hp
  refine ⟨fun k d path hd hpath => ?_, fun apply happly => ?_⟩
  · obtain ⟨log, hreaches, hgives⟩ := reaches_of_greedyUpTo hpath
    exact ⟨_, hreaches.outset hwf (Problem.demands_split hd),
      fun j hj e he => hreaches.outset_upTo hwf hgives hj he⟩
  · have hstart : Reaches p [] [] (resting {}) := .start
    refine roundsBy_eq hwf (fun done d ds ws path hds houtset => ?_) p.demands rfl hstart
    refine happly done.length d ws path (Problem.demand_of_split hds) ?_
    rw [hds, List.take_left]
    exact houtset

/-! ## A round whose last candidate is passed over -/

/-- The candidates of the first demand are the winner, one with a worse score, and one without. -/
def Plan.trailingSites : Plan where
  demands :=
    [⟨"a", [.rated "a1" (.int 1), .rated "a2" (.int 2), .eastern "a3" 1.0], 0⟩,
      ⟨"b", [.rated "b1" (.int 2)], 0⟩]
  constraints := []
  objective := Plan.gappySites.objective
  atlas := {}

def Problem.trailingSites : Problem where
  demands := Plan.trailingSites.demands
  constraints := []
  objective := Problem.gappySites.objective
  atlas := {}

theorem Problem.ofPlan_trailingSites : Problem.ofPlan .trailingSites = .ok .trailingSites :=
  Problem.ofPlan_sorted rfl rfl rfl rfl (by decide) (by decide)

theorem Problem.constraints_at_outset_trailingSites :
    ∃ path, (Problem.trailingSites.greedyUpTo 1).outcome Engine.recorded () =
      some (.ok (some path)) ∧
      (scores .trailingSites Engine.recorded () (Path.resolving {} "a") "a").Unscorable
        (.eastern "a3" 1.0) ∧
      (∃ ws, Outset (Problem.trailingSites.demands.take 1) ws ⟨"b", [.rated "b1" (.int 2)], 0⟩
        (path.resolving "b")) ∧
      path.trace = "a:a1>" ∧
      roundsBy
        (fun path d =>
          if path.assumed = [] then Problem.trailingSites.survivors path d else pure [])
        .trailingSites {} Problem.trailingSites.demands = Problem.trailingSites.greedy := by
  obtain ⟨hrun, hany⟩ :=
    Problem.constraints_at_outset Problem.ofPlan_trailingSites Engine.recorded ()
  obtain ⟨path, hpath, htrace⟩ :=
    exists_path (o := (Problem.trailingSites.greedyUpTo 1).outcome Engine.recorded ())
    (fun path => path.trace == "a:a1>") (by decide +kernel)
  obtain ⟨ws, houtset, -⟩ := hrun 1 _ path rfl hpath
  refine ⟨path, hpath, Scores.unscorable (by decide +kernel), ⟨ws, houtset⟩, eq_of_beq htrace, ?_⟩
  exact hany _ fun k d ws path _ h => if_pos h.assumed

end Placement
