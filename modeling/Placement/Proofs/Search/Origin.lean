import Placement.Engine.Recorded
import Placement.Proofs.Constraint.Origin
import Placement.Proofs.Search.Run

/-!
# Where commitments come from

Without constraints on hardware and on capacity no engine, whatever it makes up, can bring a
candidate into a greedy search: a round commits one of the survivors, the survivors are retained
from the pool of the demand, and what one round commits stays committed.
-/

namespace Placement

open Solving Greedy

variable {σ : Type} {plan : Plan} {p : Problem} {path path' : Path} {d : Demand}
  {ds done : List Demand} {out : List Candidate} {log log' : List Exchange}

/-- Every commitment is to a candidate from the pool of its demand, with its own record or with one
that a service has confirmed. -/
def Problem.Chosen (p : Problem) (log : List Exchange) (path : Path) : Prop :=
  ∀ e ∈ path.committed, ∃ d ∈ p.demands, d.name = e.1 ∧ ∃ x ∈ d.candidates,
    e.2.id = x.id ∧ (e.2 = x ∨ Confirmed log e.2)

/-- None of the constraints is on hardware or on capacity. -/
def Problem.Plain (p : Problem) : Prop := ∀ c ∈ p.constraints, c.kind ≠ .hpa ∧ c.kind ≠ .vimFit

instance (p : Problem) : Decidable p.Plain := inferInstanceAs (Decidable (∀ c ∈ p.constraints, _))

namespace Problem

theorem retains_survivors (hplain : p.Plain) (h : Ends (p.survivors path d) log (.ok out)) :
    Retains log d.candidates out :=
  retains_narrow (fun c hc => hplain c (List.mem_filter.1 hc).1) h

theorem Chosen.mono (hsub : log ⊆ log') (h : p.Chosen log path) : p.Chosen log' path := by
  intro e he
  obtain ⟨d, hd, hname, x, hx, hid, hrecord⟩ := h e he
  exact ⟨d, hd, hname, x, hx, hid, hrecord.imp id (Confirmed.mono hsub)⟩

/-- A round commits a candidate from the pool of its demand. -/
theorem Chosen.round (hplain : p.Plain) (hd : d ∈ p.demands) (hpath : p.Chosen log path)
    (h : Ends (Greedy.round p path d) log' (.ok (some path'))) : p.Chosen (log ++ log') path' := by
  obtain ⟨log₁, log₂, pool, r, w, rfl, hpool, -, -, hw, hcommits⟩ := commits_of_round h
  intro e he
  rw [hcommits.committed] at he
  rcases List.mem_append.1 he with he | he
  · exact hpath.mono (List.subset_append_left _ _) e he
  · cases List.mem_singleton.1 he
    obtain ⟨x, hx, hid, hrecord⟩ := (retains_survivors hplain hpool).records w hw
    refine ⟨d, hd, rfl, x, hx, hid, hrecord.imp id (Confirmed.mono fun e he => ?_)⟩
    exact List.mem_append_right _ (List.mem_append_left _ he)

/-- So do all rounds of a run. -/
theorem chosen_of_reaches (hplain : p.Plain) (h : Reaches p done log path)
    (hdone : done ⊆ p.demands) :
    p.Chosen log path := by
  induction h with
  | start => exact fun e he => nomatch he
  | @round done d log log' path path' _ hround ih =>
    obtain ⟨hdone, hd⟩ := List.append_subset.1 hdone
    have hchosen : p.Chosen (log ++ log') path' :=
      (ih hdone).round hplain (hd List.mem_cons_self) hround
    exact hchosen

/-- On a problem without constraints on hardware and on capacity, let the engine answer what it may.
The survivors of a demand are candidates of its pool in the order of the pool, no two with one id,
each with its own record unless a service has answered with the one that stands for it. So every
candidate that a search commits, in however many rounds, belongs to the pool of its demand. -/
theorem survivors_from_pool (hp : ofPlan plan = .ok p) (hplain : p.Plain) (engine : Engine σ)
    (s : σ) :
    (∀ d ∈ p.demands, ∀ path s' out, (p.survivors path d).outcome engine s' = some (.ok out) →
      (out.map Candidate.id).Sublist (d.candidates.map Candidate.id) ∧
      (out.map Candidate.id).Nodup ∧
        ∀ y ∈ out, ∃ x ∈ d.candidates, y.id = x.id ∧
          (y = x ∨ Confirmed ((p.survivors path d).run.exchanges engine s') y)) ∧
    (∀ k path, (p.greedyUpTo k).outcome engine s = some (.ok (some path)) →
      p.Chosen ((p.greedyUpTo k).run.exchanges engine s) path) ∧
    ∀ path, p.greedy.outcome engine s = some (.ok (some path)) →
      p.Chosen (p.greedy.run.exchanges engine s) path := by
  refine ⟨fun d hd path s' out h => ?_, fun k path h => ?_, fun path h => ?_⟩
  · have hretains := retains_survivors hplain (ends_of_outcome h).1
    exact ⟨hretains.ids, ((ofPlan_wellFormed hp).pools d hd).sublist hretains.ids, hretains.records⟩
  · exact chosen_of_reaches hplain (ends_rounds_some.1 (ends_of_outcome h).1)
      (List.take_subset k p.demands)
  · exact chosen_of_reaches hplain (ends_rounds_some.1 (ends_of_outcome h).1) (List.Subset.refl _)

end Problem

/-! ## An engine that makes things up -/

/-- The plan of two sites without the constraint on hardware. -/
def Plan.openSites : Plan := { Plan.twoSites with constraints := Plan.twoSites.constraints.tail }

def Problem.openSites : Problem :=
  { Problem.twoSites with constraints := Problem.twoSites.constraints.tail }

theorem Problem.ofPlan_openSites : Problem.ofPlan .openSites = .ok .openSites :=
  Problem.ofPlan_sorted rfl rfl rfl rfl (by decide) (by decide)

/-- It answers with a candidate of its own before those it was asked about, these in reverse, twice
and with costs that depend on how often it has been asked. -/
def Engine.forging : Engine Nat where
  reply q n :=
    let forged (given : List Candidate) : List Candidate :=
      .eastern "x" 0.0 :: (given ++ given).reverse.map fun x =>
        { x with cost := if n = 0 then 0.5 else 2.5 }
    let response : Response q := match q with
      | .attributes _ _ given => .ok (forged given)
      | .service _ given => .ok (some (forged given))
      | q => .ok (Recorded.answer q)
    (.response response, n + 1)

theorem Problem.survivors_from_pool_forging :
    ∃ path, Problem.openSites.greedy.outcome Engine.forging 0 = some (.ok (some path)) ∧
      path.trace = "a:a1>b:b1>" ∧
      Problem.openSites.Chosen (Problem.openSites.greedy.run.exchanges Engine.forging 0) path := by
  obtain ⟨-, -, hchosen⟩ :=
    Problem.survivors_from_pool Problem.ofPlan_openSites (by decide) Engine.forging 0
  obtain ⟨path, h, htrace⟩ := exists_path (o := Problem.openSites.greedy.outcome Engine.forging 0)
    (fun path => path.trace == "a:a1>b:b1>") (by decide +kernel)
  exact ⟨path, h, eq_of_beq htrace, hchosen path h⟩

end Placement
