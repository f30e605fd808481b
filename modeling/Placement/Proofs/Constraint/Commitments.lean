import Placement.Problem
import Placement.Proofs.Constraint.Scope
import Placement.Proofs.Path.History

/-!
# Constraints see commitments only

A path shows its assumptions and its commitments side by side, and only the commitments are there
for a constraint: the two paths of `SeesAlike` may differ in everything that is assumed, and a
constraint poses the same questions and lets the same candidates through on both. On a path with a
history it lets through what it would on a path on which the commitments had been made at once.
-/

namespace Placement

variable {c : Constraint} {p q : Path} {pool : List Candidate} {d : String} {x : Candidate}

/-! ## Commitments among all decisions -/

namespace Path

theorem lookup_committed (p : Path) (d : String) : p.committed.lookup d = p.decided d := by
  have hmem : ∀ {x}, p.committed.lookup d = some x → p.decided d = some x := fun h => by
    obtain ⟨pre, post, hsplit, -⟩ := List.lookup_eq_some_iff.1 h
    exact decided_of_split hsplit
  cases h : p.decided d with
  | none =>
    rw [Option.eq_none_iff_forall_ne_some]
    intro x hx
    cases h.symm.trans (hmem hx)
  | some x =>
    have hkey : d ∈ p.committed.map Prod.fst := List.mem_map_of_mem (mem_committed.2 h)
    obtain ⟨y, hy⟩ := Option.isSome_iff_exists.1 (mem_map_fst_iff.1 hkey)
    rw [hy]
    exact (hmem hy).symm.trans h

theorem decision?_assume (h : p.assume d x = .ok q) : q.decision? d = some x := by
  obtain ⟨-, rfl⟩ := assume_ok.1 h
  rw [decision?_assuming, if_pos rfl]

/-- What is committed stays committed where nothing but the commitments is kept. -/
theorem decided_of_grows {more : List (String × Candidate)} (h : Grows p more q) (d : String) :
    Path.decided { decisions := p.committed ++ more, fixed := p.fixed ++ more.map Prod.fst } d =
      q.decided d := by
  cases hd : q.isDecided d with
  | true =>
    have hentry : (p.committed ++ more).lookup d = q.decided d := by
      rw [← h.committed, lookup_committed]
    unfold isDecided at hd
    rw [h.fixed] at hd
    rw [← hentry]
    exact decided_of_isDecided hd
  | false =>
    have hnone : q.decided d = none := if_neg (by rw [hd]; exact Bool.false_ne_true)
    unfold isDecided at hd
    rw [h.fixed] at hd
    rw [hnone]
    exact if_neg (by unfold isDecided; rw [hd]; exact Bool.false_ne_true)

end Path

/-! ## One constraint -/

namespace Constraint

/-- Paths with the same demand under resolution look alike where the same demands in scope are
committed and have the same decisions. -/
theorem seesAlike_of_decisions (hcurrent : q.current = p.current)
    (hcommitted : ∀ d ∈ c.demands, q.isDecided d = p.isDecided d)
    (hdecisions : ∀ d ∈ c.demands, p.isDecided d = true → q.decision? d = p.decision? d) :
    c.SeesAlike p q := by
  refine ⟨hcurrent, hcommitted, fun d hd => ?_⟩
  unfold Path.decided
  rw [hcommitted d hd]
  split
  · next hdecided => exact hdecisions d hd hdecided
  · rfl

theorem seesAlike_of_assume (h : p.assume d x = .ok q) (c : Constraint) : c.SeesAlike p q := by
  obtain ⟨hd, rfl⟩ := Path.assume_ok.1 h
  exact .of_committed rfl (Path.committed_assuming hd x) rfl

theorem seesAlike_retract (c : Constraint) (p : Path) (d : String) : c.SeesAlike p (p.retract d) :=
  .of_committed (Path.fixed_retract p d) (Path.committed_retract p d) (Path.current_retract p d)

/-- On paths that look alike a constraint is the same computation, whatever its rule. -/
theorem filter_congr (h : c.SeesAlike p q) (pool : List Candidate) :
    c.filter q pool = c.filter p pool := by
  unfold filter
  cases c.rule with
  | attributes evaluate =>
    unfold keepAttributed demandName
    rw [h.current]
  | threshold key operator bound => rfl
  | distance r =>
    unfold keepDistant
    rw [h.decidedSiblings]
  | aggregation rules =>
    unfold keepAggregated
    simp only [h.lastToResolve, h.members]
  | hpa requirements => rfl
  | vimFit request => rfl
  | service controller inventoryType request cost =>
    unfold keepServed demandName
    rw [h.current]
  | zone qualifier category =>
    unfold keepZoned
    rw [h.decidedSiblings]

end Constraint

/-! ## All constraints on a demand -/

theorem narrow_congr : ∀ {cs : List Constraint}, (∀ c ∈ cs, c.SeesAlike p q) →
    ∀ pool, narrow q cs pool = narrow p cs pool
  | [], _, pool => rfl
  | c :: cs, h, pool => by
    unfold narrow
    rw [Constraint.filter_congr (h c List.mem_cons_self)]
    congr 1
    funext out
    cases out with
    | nil => rfl
    | cons x xs => exact narrow_congr (fun c hc => h c (List.mem_cons_of_mem _ hc)) (x :: xs)

/-- What is assumed, or what of it is taken back, shows in no survivor. -/
theorem Problem.survivors_of_committed (problem : Problem) (hfixed : q.fixed = p.fixed)
    (hcommitted : q.committed = p.committed) (hcurrent : q.current = p.current) (demand : Demand) :
    problem.survivors q demand = problem.survivors p demand :=
  narrow_congr (fun _ _ => .of_committed hfixed hcommitted hcurrent) demand.candidates

/-! ## Any constraint on any path -/

/-- Let a path be given with whatever is committed and assumed on it. Another path on which the same
demands in scope are committed, to the same candidates, makes no difference to a constraint,
whatever it shows besides; in particular it makes no difference that a candidate is assumed for a
demand that is not committed, or that an assumption is taken back. After any operations on the path,
of which any may have failed, the constraint lets through what it does where nothing but their
commitments has been added to those of the path. In each case the questions to the engine are the
same as well. -/
theorem Constraint.filter_of_commitments (c : Constraint) (p : Path) (pool : List Candidate) :
    (∀ q : Path, q.current = p.current → (∀ d ∈ c.demands, q.isDecided d = p.isDecided d) →
      (∀ d ∈ c.demands, p.isDecided d = true → q.decision? d = p.decision? d) →
        c.filter q pool = c.filter p pool) ∧
    (∀ d x, p.isDecided d = false →
      ∃ q, p.assume d x = .ok q ∧ q.decision? d = some x ∧ c.filter q pool = c.filter p pool) ∧
    (∀ d, (p.isDecided d = false → (p.retract d).decision? d = none) ∧
      c.filter (p.retract d) pool = c.filter p pool) ∧
    ∀ (σ : Type) (engine : Engine σ) (s : σ) (ops : List Path.Operation)
      (steps : List Path.Performed),
      ((Path.perform p ops).run engine s).result = some steps →
        c.filter (Path.after p steps) pool =
          c.filter { decisions := p.committed ++ Path.commitments steps
                     fixed := p.fixed ++ (Path.commitments steps).map Prod.fst
                     current := p.current } pool := by
  refine ⟨fun q hcurrent hcommitted hdecisions => ?_, fun d x hd => ?_, fun d => ⟨fun hd => ?_, ?_⟩,
    fun σ engine s ops steps h => ?_⟩
  · exact filter_congr (seesAlike_of_decisions hcurrent hcommitted hdecisions) pool
  · have hassume := (Path.assume_ok (x := x)).2 ⟨hd, rfl⟩
    exact ⟨_, hassume, Path.decision?_assume hassume,
      filter_congr (seesAlike_of_assume hassume c) pool⟩
  · rw [Path.decision?_retract, if_pos ⟨hd, rfl⟩]
  · exact filter_congr (c.seesAlike_retract p d) pool
  · obtain ⟨hends, -⟩ := Consult.ends_of_run h
    have hgrows : Path.Grows p (Path.commitments steps) (Path.after p steps) :=
      Path.grows_after hends (List.append_nil _).symm
    refine filter_congr ?_ pool
    refine ⟨hgrows.current, fun d _ => ?_, fun d _ => (Path.decided_of_grows hgrows d).symm⟩
    unfold Path.isDecided
    rw [hgrows.fixed]

/-- The regions of two demands have to differ. -/
def Constraint.apart : Constraint where
  name := "apart"
  demands := ["a", "b"]
  priority := 6
  rule := .zone .different "region"

theorem Constraint.filter_of_commitments_apart :
    (∃ q, Path.assume { current := some "b" } "a" (.eastern "a1" 1.0) = .ok q ∧
      q.decision? "a" = some (.eastern "a1" 1.0) ∧
        (Constraint.apart.filter q [.eastern "b1" 1.0]).outcome Engine.recorded () =
          some (.ok [.eastern "b1" 1.0])) ∧
    ∃ steps, ((Path.perform { current := some "b" }
        [.assume "a" (.eastern "a2" 1.0), .commit "a" (.eastern "a1" 1.0),
          .assume "b" (.eastern "b1" 1.0)]).run
          Engine.recorded ()).result = some steps ∧
      (Constraint.apart.filter (Path.after { current := some "b" } steps)
        [.eastern "b1" 1.0]).outcome
        Engine.recorded () = some (.ok []) := by
  obtain ⟨-, hassume, -, hhistory⟩ :=
    Constraint.filter_of_commitments .apart { current := some "b" } [.eastern "b1" 1.0]
  obtain ⟨q, hq, hseen, hfilter⟩ := hassume "a" (.eastern "a1" 1.0) rfl
  refine ⟨⟨q, hq, hseen, by rw [hfilter]; rfl⟩, ?_⟩
  have hrun : ∃ steps, ((Path.perform { current := some "b" }
      [.assume "a" (.eastern "a2" 1.0), .commit "a" (.eastern "a1" 1.0),
        .assume "b" (.eastern "b1" 1.0)]).run
        Engine.recorded ()).result = some steps := ⟨_, rfl⟩
  obtain ⟨steps, h⟩ := hrun
  refine ⟨steps, h, ?_⟩
  rw [hhistory _ _ _ _ _ h]
  cases h
  rfl

end Placement
