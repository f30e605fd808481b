import Placement.Engine.Rehearsed
import Placement.Proofs.Constraint.Questions
import Placement.Proofs.Objective.Questions
import Placement.Proofs.Search.Questions

/-!
# Empty pools

A round that has no candidates left asks no more questions, and the search ends without a path. The
only question about no candidates that a search may ask comes before: the pipeline starts with the
pool as it is, so the first constraint on a demand is applied to the pool of the plan even where
that is empty.
-/

namespace Placement

open Solving

variable {σ : Type} {engine : Engine σ} {s : σ} {p : Problem} {path : Path} {d : Demand} {q : Query}
  {cs₁ cs₂ : List Constraint} {k : Nat}

namespace Greedy

/-! ## Questions of a round -/

theorem asksOnly_trial (p : Problem) (path : Path) (demand : String) (x : Candidate) :
    (trial p path demand x).AsksOnly Query.IsLocation := by
  unfold trial
  exact (asksOnly_ofExcept _).bind fun assumed => (p.builtFrom_score assumed).asksOnly

theorem asksOnly_attempts (p : Problem) (demand : String) (pool : List Candidate) (r : Round) :
    (attempts p demand r pool).AsksOnly Query.IsLocation := by
  refine asksOnly_iff.2 fun log q h => ?_
  obtain ⟨before, x, after, log₁, log₂, r', -, -, -, h⟩ := asks_attempts.1 h
  exact asksOnly_iff.1 (asksOnly_trial p r'.path demand x) log₂ q h

/-- In a round the question about no candidates is put by the first constraint, and on an empty pool
only. -/
theorem mem_calls_round : q ∈ (round p path d).calls engine s ∧ q.given = [] ↔
    d.candidates = [] ∧ ∃ c, (p.constraintsFor d.name).head? = some c ∧
      c.emptyQuestion? d.name = some q := by
  unfold round
  constructor
  · rintro ⟨hmem, hgiven⟩
    rcases mem_calls_bind.1 hmem with hmem | ⟨pool, -, hmem⟩
    · obtain ⟨hpool, c, hc, hquestion⟩ := (builtFrom_narrow _ _ _).asksOnly.mem_calls hmem hgiven
      exact ⟨hpool, c, hc, hquestion⟩
    · rcases mem_calls_bind.1 hmem with hmem | ⟨r, -, hmem⟩
      · exact absurd hgiven ((asksOnly_attempts p d.name pool _).mem_calls hmem).given_ne_nil
      · cases hmem
  · rintro ⟨hpool, c, hc, hquestion⟩
    obtain ⟨cs, hcs⟩ := List.head?_eq_some_iff.1 hc
    refine ⟨mem_calls_bind.2 (.inl ?_), Constraint.given_of_emptyQuestion? hquestion⟩
    unfold Problem.survivors
    rw [hcs, hpool]
    exact mem_calls_bind.2 (.inl (Constraint.mem_calls_filter hquestion))

/-- Where one of the first constraints leaves nothing, the round ends there without a path. -/
theorem round_of_narrow_nil (hcs : p.constraintsFor d.name = cs₁ ++ cs₂)
    (hfirst : cs₁ = [] → cs₂ = [])
    (h : (narrow (path.resolving d.name) cs₁ d.candidates).outcome engine s = some (.ok [])) :
    (round p path d).outcome engine s = some (.ok none) ∧
      (round p path d).calls engine s =
        (narrow (path.resolving d.name) cs₁ d.candidates).calls engine s := by
  have hsurvivors : (p.survivors (path.resolving d.name) d).outcome engine s = some (.ok []) ∧
      (p.survivors (path.resolving d.name) d).calls engine s =
        (narrow (path.resolving d.name) cs₁ d.candidates).calls engine s := by
    unfold Problem.survivors
    rw [hcs, narrow_append hfirst, outcome_bind_of_ok h, calls_bind_of_ok h]
    exact ⟨rfl, List.append_nil _⟩
  refine ⟨(outcome_bind_of_ok hsurvivors.1).trans rfl, (calls_bind_of_ok hsurvivors.1).trans ?_⟩
  rw [hsurvivors.2]
  exact List.append_nil _

end Greedy

namespace Problem

/-! ## Questions of a search -/

/-- Every call of a search is one of a round that the search comes to. -/
theorem exists_round_of_mem_calls : ∀ {n : Nat}, q ∈ (p.greedyUpTo n).calls engine s →
    ∃ k d path, p.demands[k]? = some d ∧
      (p.greedyUpTo k).outcome engine s = some (.ok (some path)) ∧
      q ∈ (Greedy.round p path d).calls engine ((p.greedyUpTo k).left engine s)
  | 0, h => nomatch h
  | n + 1, h => by
    rw [greedyUpTo_succ] at h
    rcases mem_calls_bind.1 h with h | ⟨o, ho, h⟩
    · exact exists_round_of_mem_calls h
    -- The call is made after the first `n` rounds, so it is one of the round that comes next.
    · cases o with
      | none => cases h
      | some path =>
        cases hd : p.demands[n]? with
        | none =>
          rw [hd] at h
          cases h
        | some d =>
          rw [hd] at h
          rcases mem_calls_bind.1 h with h | ⟨o', -, h⟩
          · exact ⟨n, d, path, hd, ho, h⟩
          · cases o' with
            | none => cases h
            | some path' => cases h

theorem mem_calls_greedy : q ∈ p.greedy.calls engine s ↔
    ∃ k d path, p.demands[k]? = some d ∧
      (p.greedyUpTo k).outcome engine s = some (.ok (some path)) ∧
      q ∈ (Greedy.round p path d).calls engine ((p.greedyUpTo k).left engine s) := by
  constructor
  · rw [← greedyUpTo_length]
    exact exists_round_of_mem_calls
  · rintro ⟨k, d, path, hd, hpath, hmem⟩
    rw [greedy_eq_bind_round hd]
    exact mem_calls_bind.2 (.inr ⟨some path, hpath, mem_calls_bind.2 (.inl hmem)⟩)

/-- Against whatever engine, a search asks about no candidates exactly where it comes to a demand
whose pool is empty in the plan and whose first constraint puts a question about the pool. Wherever
constraints have been applied to a demand, or there are none, and no candidate is left, the search
ends without a path and without an error, and asks nothing more: no other constraint is applied. -/
theorem greedy_on_empty_pools (p : Problem) (engine : Engine σ) (s : σ) :
    (∀ q, q ∈ p.greedy.calls engine s ∧ q.given = [] ↔ ∃ k d path c, p.demands[k]? = some d ∧
      (p.greedyUpTo k).outcome engine s = some (.ok (some path)) ∧ d.candidates = [] ∧
        (p.constraintsFor d.name).head? = some c ∧ c.emptyQuestion? d.name = some q) ∧
    ∀ k d path cs₁ cs₂, p.demands[k]? = some d →
      (p.greedyUpTo k).outcome engine s = some (.ok (some path)) →
      p.constraintsFor d.name = cs₁ ++ cs₂ → (cs₁ = [] → cs₂ = []) →
        (narrow (path.resolving d.name) cs₁ d.candidates).outcome engine
          ((p.greedyUpTo k).left engine s) =
            some (.ok []) →
          p.greedy.outcome engine s = some (.ok none) ∧
            p.greedy.calls engine s = (p.greedyUpTo k).calls engine s ++
              (narrow (path.resolving d.name) cs₁ d.candidates).calls engine
                ((p.greedyUpTo k).left engine s) := by
  refine ⟨fun q => ?_, fun k d path cs₁ cs₂ hd hpath hcs hfirst hnone => ?_⟩
  · rw [mem_calls_greedy]
    constructor
    · rintro ⟨⟨k, d, path, hd, hpath, hmem⟩, hgiven⟩
      obtain ⟨hpool, c, hc, hquestion⟩ := Greedy.mem_calls_round.1 ⟨hmem, hgiven⟩
      exact ⟨k, d, path, c, hd, hpath, hpool, hc, hquestion⟩
    · rintro ⟨k, d, path, c, hd, hpath, hpool, hc, hquestion⟩
      obtain ⟨hmem, hgiven⟩ := Greedy.mem_calls_round.2 ⟨hpool, c, hc, hquestion⟩
      exact ⟨⟨k, d, path, hd, hpath, hmem⟩, hgiven⟩
  · obtain ⟨houtcome, hcalls⟩ := Greedy.round_of_narrow_nil hcs hfirst hnone
    rw [greedy_eq_bind_round hd, outcome_bind_of_ok hpath, calls_bind_of_ok hpath]
    simp only
    rw [outcome_bind_of_ok houtcome, calls_bind_of_ok houtcome, hcalls]
    exact ⟨rfl, congrArg _ (List.append_nil _)⟩

end Problem

/-! ## A site that is to be in the west -/

/-- One demand under two constraints on attributes. -/
def Plan.westernSite (pool : List Candidate) : Plan where
  demands := [⟨"a", pool, 0⟩]
  constraints :=
    [⟨"placed", "attribute", ["a"], none,
      .object [("evaluate", .object [("region", .string "west")])]⟩,
      ⟨"owned", "attribute", ["a"], none,
        .object [("evaluate", .object [("owner", .string "north")])]⟩]
  objective := ⟨.minimize, .mk "sum" [.mk (some "cost") (some { demand := some "a" }) none {}]⟩
  atlas := {}

def Problem.westernSite (pool : List Candidate) : Problem where
  demands := [⟨"a", pool, 0⟩]
  constraints :=
    [⟨"placed", ["a"], 4, .attributes [("region", .string "west")]⟩,
      ⟨"owned", ["a"], 4, .attributes [("owner", .string "north")]⟩]
  objective := ⟨.minimize, .sum, [.leaf .cost { demand := some "a" } {}]⟩
  atlas := {}

/-- The one candidate is in the east, so nobody is asked who owns it. -/
theorem Problem.greedy_on_empty_pools_eastern :
    (Problem.westernSite [.eastern "a1" 1.0]).greedy.outcome Engine.recorded () = some (.ok none) ∧
      (Problem.westernSite [.eastern "a1" 1.0]).greedy.calls Engine.recorded () =
        [.attributes "a" [("region", .string "west")] [.eastern "a1" 1.0]] := by
  obtain ⟨-, hnone⟩ :=
    Problem.greedy_on_empty_pools (.westernSite [.eastern "a1" 1.0]) Engine.recorded ()
  exact hnone 0 _ {} [⟨"placed", ["a"], 4, .attributes [("region", .string "west")]⟩] _ rfl rfl rfl
    (fun h => nomatch h) rfl

/-- The pool of the accepted plan is empty, and the engine is asked about it all the same. Where it
is down, the search ends with its failure and not without a path. -/
theorem Problem.greedy_asks_about_nobody :
    Problem.ofPlan (.westernSite []) = .ok (.westernSite []) ∧
    (Problem.westernSite []).greedy.calls Engine.recorded () =
      [.attributes "a" [("region", .string "west")] []] ∧
    (Problem.westernSite []).greedy.outcome (Engine.rehearsed ⟨[], [.attributes], []⟩) [] =
      some (.error (.engine (.unavailable "attributes down"))) :=
  ⟨Problem.ofPlan_sorted rfl rfl rfl rfl (by decide) (by decide), rfl, rfl⟩

end Placement
