import Mathlib.Data.List.Forall2
import Placement.Engine.Recorded
import Placement.Proofs.Search.Run

/-!
# No lookahead

The rounds of the greedy search read the constraints, the objective and the atlas of a problem, and
of its demands the one under resolution. Two plans that differ in nothing but the pools of later
demands have the same order of resolution, so their first rounds are one computation, and the
searches part, if they do, after it.
-/

namespace Placement

open Solving

/-! ## Problems that differ in their demands -/

/-- The problems differ in nothing but their demands. -/
structure Problem.SameRules (p p' : Problem) : Prop where
  constraints : p'.constraints = p.constraints
  objective : p'.objective = p.objective
  atlas : p'.atlas = p.atlas

namespace Greedy

variable {p p' : Problem}

theorem attempt_congr (h : p.SameRules p') (demand : String) (r : Round) (x : Candidate) :
    attempt p' demand r x = attempt p demand r x := by
  unfold attempt Problem.compute
  rw [h.objective, h.atlas]

theorem attempts_congr (h : p.SameRules p') (demand : String) :
    ∀ (pool : List Candidate) (r : Round),
    attempts p' demand r pool = attempts p demand r pool
  | [], r => rfl
  | x :: xs, r => by
    unfold attempts
    rw [attempt_congr h]
    exact congrArg _ (funext fun r' => attempts_congr h demand xs r')

theorem round_congr (h : p.SameRules p') (path : Path) (d : Demand) :
    round p' path d = round p path d := by
  unfold round Problem.survivors Problem.constraintsFor
  simp only [h.constraints, h.objective, attempts_congr h]

theorem rounds_congr (h : p.SameRules p') :
    ∀ (ds : List Demand) (path : Path), rounds p' path ds = rounds p path ds
  | [], path => rfl
  | d :: ds, path => by
    unfold rounds
    rw [round_congr h]
    refine congrArg _ (funext fun o => ?_)
    cases o with
    | none => rfl
    | some path' => exact rounds_congr h ds path'

/-- What is committed stays, in its place. -/
theorem committed_prefix_of_rounds : ∀ {ds : List Demand} {path q : Path} {log : List Exchange},
    Ends (rounds p path ds) log (.ok (some q)) → path.committed <+: q.committed
  | [], path, q, log, h => by
    cases (ends_pure.1 h).2
    exact List.prefix_refl _
  | d :: ds, path, q, log, h => by
    unfold rounds at h
    obtain ⟨log₁, log₂, o, -, hround, hrest⟩ := ends_bind_ok.1 h
    cases o with
    | none => cases (ends_pure.1 hrest).2
    | some path' =>
      obtain ⟨-, -, -, r, w, -, -, -, -, -, hcommits⟩ := commits_of_round hround
      refine List.IsPrefix.trans ?_ (committed_prefix_of_rounds hrest)
      rw [hcommits.committed]
      exact List.prefix_append _ _

end Greedy

namespace Problem

variable {σ : Type} {engine : Engine σ} {s : σ} {p : Problem}

/-- A search whose first rounds come to no path ends as they do. -/
theorem outcome_greedy_stop {k : Nat} {r : Option (Except SolveError (Option Path))}
    (h : (p.greedyUpTo k).outcome engine s = r) (hr : ∀ path, r ≠ some (.ok (some path))) :
    p.greedy.outcome engine s = r := by
  rw [greedy_eq_bind p k, outcome_bind_run, h]
  rcases r with _ | _ | _ | path
  · rfl
  · rfl
  · rfl
  · exact absurd rfl (hr path)

/-- A path that is returned extends the one that the first rounds have come to. -/
theorem committed_prefix_of_greedy {k : Nat} {path q : Path}
    (h : (p.greedyUpTo k).outcome engine s = some (.ok (some path)))
    (hq : p.greedy.outcome engine s = some (.ok (some q))) : path.committed <+: q.committed := by
  rw [greedy_eq_bind p k, outcome_bind_run, h] at hq
  exact Greedy.committed_prefix_of_rounds (ends_of_outcome hq).1

end Problem

/-! ## Plans that differ in some pools -/

/-- The demands differ at most in their pools, and only if they are none of the listed ones. -/
structure Demand.Shares (names : List String) (d d' : Demand) : Prop where
  name : d'.name = d.name
  sortKey : d'.sortKey = d.sortKey
  candidates : d.name ∈ names → d'.candidates = d.candidates

/-- The plans differ at most in the pools of demands that are none of the listed ones. -/
structure Plan.Shares (names : List String) (plan plan' : Plan) : Prop where
  demands : List.Forall₂ (Demand.Shares names) plan.demands plan'.demands
  constraints : plan'.constraints = plan.constraints
  objective : plan'.objective = plan.objective
  atlas : plan'.atlas = plan.atlas

theorem Demand.Shares.eq {names : List String} {d d' : Demand} (h : d.Shares names d')
    (hd : d.name ∈ names) :
    d' = d := by
  obtain ⟨name, pool, sortKey⟩ := d
  obtain ⟨name', pool', sortKey'⟩ := d'
  cases h.name
  cases h.sortKey
  cases h.candidates hd
  rfl

theorem Demand.names_of_shares {names : List String} {ds ds' : List Demand}
    (h : List.Forall₂ (Demand.Shares names) ds ds') : ds'.map Demand.name = ds.map Demand.name := by
  induction h with
  | nil => rfl
  | cons hd _ ih => rw [List.map_cons, List.map_cons, hd.name, ih]

namespace Problem

variable {σ : Type} {plan plan' : Plan} {p p' : Problem} {k : Nat} {names : List String}

/-- Both plans' demands are resolved in one order, by pairs. -/
theorem exists_pairs {ds ds' : List Demand} (h : List.Forall₂ (Demand.Shares names) ds ds') :
    ∃ pairs : List (Demand × Demand), (∀ e ∈ pairs, e.1.Shares names e.2) ∧
      processingOrder (ds.map Demand.cleaned) = pairs.map (fun e => e.1.cleaned) ∧
        processingOrder (ds'.map Demand.cleaned) = pairs.map fun e => e.2.cleaned := by
  obtain ⟨hlength, hshares⟩ := List.forall₂_iff_zip.1 h
  have hfst : ds.map Demand.cleaned = (ds.zip ds').map fun e => e.1.cleaned := by
    calc ds.map Demand.cleaned = ((ds.zip ds').map Prod.fst).map Demand.cleaned := by
          rw [List.map_fst_zip (Nat.le_of_eq hlength)]
      _ = _ := List.map_map
  have hsnd : ds'.map Demand.cleaned = (ds.zip ds').map fun e => e.2.cleaned := by
    calc ds'.map Demand.cleaned = ((ds.zip ds').map Prod.snd).map Demand.cleaned := by
          rw [List.map_snd_zip (Nat.le_of_eq hlength.symm)]
      _ = _ := List.map_map
  refine ⟨(ds.zip ds').mergeSort fun a b => decide (a.1.sortKey ≤ b.1.sortKey),
    fun e he => ?_, ?_, ?_⟩
  · exact hshares (List.mem_mergeSort.1 he)
  · unfold processingOrder
    rw [hfst]
    refine (List.map_mergeSort fun a _ b _ => ?_).symm
    rfl
  · unfold processingOrder
    rw [hsnd]
    refine (List.map_mergeSort fun a ha b hb => ?_).symm
    rw [show a.2.cleaned.sortKey = a.1.sortKey from (hshares ha).sortKey,
      show b.2.cleaned.sortKey = b.1.sortKey from (hshares hb).sortKey]

/-- Plans that share the pools of the first demands have the same order of resolution and the same
first demands. -/
theorem demands_of_shares (hp : ofPlan plan = .ok p) (hp' : ofPlan plan' = .ok p')
    (h : plan.Shares (p.names.take k) plan') :
    p'.names = p.names ∧ p'.demands.take k = p.demands.take k := by
  obtain ⟨cs, o, -, -, -, -, hproblem⟩ := ofPlan_ok.1 hp
  obtain ⟨cs', o', -, -, -, -, hproblem'⟩ := ofPlan_ok.1 hp'
  obtain ⟨pairs, hpairs, horder, horder'⟩ := exists_pairs h.demands
  have hdemands : p.demands = pairs.map fun e => e.1.cleaned := by rw [hproblem, ← horder]
  have hdemands' : p'.demands = pairs.map fun e => e.2.cleaned := by rw [hproblem', ← horder']
  constructor
  · unfold Problem.names
    rw [hdemands, hdemands', List.map_map, List.map_map]
    exact List.map_congr_left fun e he => (hpairs e he).name
  · have hnames : p.names.take k = (pairs.take k).map fun e => e.1.name := by
      unfold Problem.names
      rw [hdemands, List.map_map, ← List.map_take]
      rfl
    rw [hdemands, hdemands', ← List.map_take, ← List.map_take]
    refine List.map_congr_left fun e he => congrArg Demand.cleaned ?_
    refine (hpairs e (List.mem_of_mem_take he)).eq ?_
    rw [hnames]
    exact List.mem_map_of_mem he

theorem sameRules_of_shares (hp : ofPlan plan = .ok p) (hp' : ofPlan plan' = .ok p')
    (h : plan.Shares names plan') :
    p.SameRules p' := by
  obtain ⟨cs, o, -, -, hcs, ho, rfl⟩ := ofPlan_ok.1 hp
  obtain ⟨cs', o', -, -, hcs', ho', rfl⟩ := ofPlan_ok.1 hp'
  have hnames := Demand.names_of_shares h.demands
  rw [hnames, h.constraints, hcs] at hcs'
  rw [hnames, h.objective, h.atlas, ho] at ho'
  cases hcs'
  cases ho'
  exact ⟨rfl, rfl, h.atlas⟩

/-- Let two accepted plans differ in nothing but pools, and not in those of the first demands in the
order of resolution. Against whatever engine the first rounds of both searches are the same. Either
they come to the same path, on which the first demands are committed and which any result extends,
or both searches end there, with the same error, with no path, or in the same call that never
returns. -/
theorem greedy_no_lookahead (hp : ofPlan plan = .ok p) (hp' : ofPlan plan' = .ok p')
    (h : plan.Shares (p.names.take k) plan') (engine : Engine σ) (s : σ) :
    p'.names = p.names ∧ p'.greedyUpTo k = p.greedyUpTo k ∧
    ((∃ path, (p.greedyUpTo k).outcome engine s = some (.ok (some path)) ∧
        (p'.greedyUpTo k).outcome engine s = some (.ok (some path)) ∧
        path.committed.map Prod.fst = p.names.take k ∧
        (∀ q, p.greedy.outcome engine s = some (.ok (some q)) → path.committed <+: q.committed) ∧
        ∀ q, p'.greedy.outcome engine s = some (.ok (some q)) → path.committed <+: q.committed) ∨
      ∃ r, (∀ path, r ≠ some (.ok (some path))) ∧ (p.greedyUpTo k).outcome engine s = r ∧
        p.greedy.outcome engine s = r ∧ p'.greedy.outcome engine s = r) := by
  obtain ⟨hnames, htake⟩ := demands_of_shares hp hp' h
  have hrounds : p'.greedyUpTo k = p.greedyUpTo k := by
    unfold greedyUpTo
    rw [htake]
    exact Greedy.rounds_congr (sameRules_of_shares hp hp' h) _ _
  refine ⟨hnames, hrounds, ?_⟩
  by_cases hpath : ∃ path, (p.greedyUpTo k).outcome engine s = some (.ok (some path))
  · obtain ⟨path, hpath⟩ := hpath
    have hpath' : (p'.greedyUpTo k).outcome engine s = some (.ok (some path)) := by
      rw [hrounds, hpath]
    obtain ⟨log, hreaches, -⟩ := Greedy.reaches_of_greedyUpTo hpath
    refine .inl ⟨path, hpath, hpath', ?_, fun q => committed_prefix_of_greedy hpath,
      fun q => committed_prefix_of_greedy hpath'⟩
    rw [hreaches.stands.names, Problem.names, List.map_take]
  · have hstop : ∀ path, (p.greedyUpTo k).outcome engine s ≠ some (.ok (some path)) :=
      fun path h => hpath ⟨path, h⟩
    have hsame : (p'.greedyUpTo k).outcome engine s = (p.greedyUpTo k).outcome engine s := by
      rw [hrounds]
    exact .inr ⟨_, hstop, rfl, outcome_greedy_stop rfl hstop, outcome_greedy_stop hsame hstop⟩

end Problem

/-! ## Other candidates for the second site -/

/-- The plan of two sites with other candidates for the second. -/
def Plan.otherSites : Plan :=
  { Plan.twoSites with
    demands :=
      [⟨"a", [.eastern "a1" 3.0, .eastern "a2" 1.0], 0⟩,
        ⟨"b", [.eastern "b3" 2.0, .eastern "b4" 1.0], 0⟩] }

def Problem.otherSites : Problem := { Problem.twoSites with demands := Plan.otherSites.demands }

theorem Problem.ofPlan_otherSites : Problem.ofPlan .otherSites = .ok .otherSites :=
  Problem.ofPlan_sorted rfl rfl rfl rfl (by decide) (by decide)

theorem Plan.shares_otherSites : Plan.twoSites.Shares (Problem.twoSites.names.take 1) .otherSites :=
  ⟨.cons ⟨rfl, rfl, fun _ => rfl⟩ (.cons ⟨rfl, rfl, fun h => absurd h (by decide)⟩ .nil), rfl,
    rfl, rfl⟩

theorem Problem.greedy_no_lookahead_otherSites :
    ∃ path, (Problem.twoSites.greedyUpTo 1).outcome Engine.recorded () = some (.ok (some path)) ∧
      (Problem.otherSites.greedyUpTo 1).outcome Engine.recorded () = some (.ok (some path)) ∧
      path.trace = "a:a2>" := by
  obtain ⟨-, hrounds, -⟩ :=
    Problem.greedy_no_lookahead Problem.ofPlan_twoSites Problem.ofPlan_otherSites
    Plan.shares_otherSites Engine.recorded ()
  obtain ⟨path, h, htrace⟩ :=
    Greedy.exists_path (o := (Problem.twoSites.greedyUpTo 1).outcome Engine.recorded ())
    (fun path => path.trace == "a:a2>") (by decide +kernel)
  refine ⟨path, h, ?_, eq_of_beq htrace⟩
  rw [hrounds]
  exact h

end Placement
