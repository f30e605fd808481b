import Placement.Engine.Recorded
import Placement.Proofs.Constraint.Failure
import Placement.Proofs.Engine.Silence
import Placement.Proofs.Objective.Failure
import Placement.Proofs.Search.RandomPick
import Placement.Proofs.Search.Run

/-!
# Why a search fails

What is wrong with a plan has come to light before a search starts. A greedy search fails only for
the engine: a call that fails, or one that gives no location for a candidate already committed to,
which a distance constraint needs. Random picks never fail.
-/

namespace Placement

open Solving Greedy

variable {σ : Type} {plan : Plan} {p : Problem} {path : Path} {d : Demand} {x : Candidate}
  {log : List Exchange} {e : SolveError}

/-- A trial on an accepted problem fails for the engine or for the candidate's record. -/
theorem Greedy.trial_error (hp : p.WellFormed) (hd : path.isDecided d.name = false)
    (h : Ends (trial p path d.name x) log (.error e)) : Failed log e ∨ e.isMismatch = true := by
  obtain ⟨assumed, -, h⟩ := (ends_trial_error hd).1 h
  exact Objective.evaluate_error rfl hp.leaves h

/-- A round on an accepted problem fails for the engine or for the location of a sibling. -/
theorem Greedy.round_error (hp : p.WellFormed) (hd : path.isDecided d.name = false)
    (h : Ends (round p path d) log (.error e)) :
    Failed log e ∨ ∃ c ∈ p.constraintsFor d.name,
    c.MissesSibling (path.resolving d.name) log e := by
  rcases ends_round_error hd h with
    h | ⟨log₁, log₂, pool, rfl, -, x, -, log', hsuffix, htrial, hmismatch⟩
  · exact narrow_error h
  · have hopen : (path.resolving d.name).isDecided d.name = false := hd
    rcases trial_error hp hopen htrial with hfailed | he
    · exact .inl (hfailed.of_suffix (hsuffix.trans (List.suffix_append _ _)))
    · rw [hmismatch] at he
      cases he

/-- Against any engine, an error of a greedy search on an accepted problem is the failure of the
engine's last call, or the lack of a location, in the engine's last answer, for the candidate that a
sibling in the scope of a distance constraint is committed to. Without an error, a search comes to
no end only where a call never returns. Random picks end with no error at all. -/
theorem Problem.errors_of_search (hp : Problem.ofPlan plan = .ok p) (engine : Engine σ) (s : σ) :
    (∀ e, p.greedy.outcome engine s = some (.error e) →
      (∃ q f, (p.greedy.run.exchanges engine s).getLast? = some ⟨q, .error f⟩ ∧ e = .engine f) ∨
      ∃ k d path c r sibling x, p.demands[k]? = some d ∧
        (p.greedyUpTo k).outcome engine s = some (.ok (some path)) ∧
        c ∈ p.constraints ∧ c.rule = .distance r ∧ d.name ∈ c.demands ∧
        sibling ∈ c.demands ∧ sibling ≠ d.name ∧ path.decided sibling = some x ∧
        (p.greedy.run.exchanges engine s).getLast? = some ⟨.location x, .ok none⟩ ∧
        e = .missingLocation (sibling ++ ":" ++ x.id)) ∧
    (p.greedy.outcome engine s = none → ∃ q s', (engine.reply q s').1 = .silence) ∧
    ∀ choices e, (p.randomPick choices).outcome engine s ≠ some (.error e) := by
  have hwf := Problem.ofPlan_wellFormed hp
  refine ⟨fun e h => ?_, Consult.silence_of_run, fun choices e h => ?_⟩
  · obtain ⟨h, hgives⟩ := ends_of_outcome h
    obtain ⟨ds₁, d, ds₂, log₁, log₂, path, hds, hlog, hreaches, hround⟩ :=
      (ends_rounds_stop (by simp)).1 h
    rw [hlog] at hgives ⊢
    have hd := hreaches.undecided hwf hds
    rcases round_error hwf hd hround with hfailed | ⟨c, hc, ⟨r, hr⟩, sibling, x, hx, hlast, he⟩
    · exact .inl (hfailed.of_suffix (List.suffix_append _ _))
    · obtain ⟨hsibling, hother, hdecided⟩ := Constraint.mem_decidedSiblings.1 hx
      obtain ⟨hc, happlies⟩ := List.mem_filter.1 hc
      refine .inr ⟨ds₁.length, d, path, c, r, sibling, x, Problem.demand_of_split hds,
        hreaches.greedyUpTo hgives.of_append hds, hc, hr, ?_, hsibling, ?_, hdecided,
        getLast?_of_suffix (List.suffix_append _ _) hlast, he⟩
      · exact List.contains_iff_mem.1 happlies
      · rintro rfl
        exact hother rfl
  · obtain ⟨h, -⟩ := ends_of_outcome h
    obtain ⟨o, ho⟩ := RandomPick.picks_of_nodup choices hwf.names
    rcases RandomPick.ends_randomPick ho h with ⟨-, hr⟩ | ⟨path, t, -, -, hr⟩
    · cases hr
    · cases hr

/-- The engine that answers from the records but knows no locations. -/
def Engine.placeless : Engine Unit := Engine.ofResponses fun q =>
  match q with
  | .location _ => .ok (none : Option Location)
  | q => .ok (Recorded.answer q)

theorem Problem.errors_of_search_placeless :
    Problem.twoSites.greedy.outcome Engine.placeless () = some (.error (.missingLocation "a:a2")) ∧
      ∃ k d path c r sibling x, Problem.twoSites.demands[k]? = some d ∧
        (Problem.twoSites.greedyUpTo k).outcome Engine.placeless () = some (.ok (some path)) ∧
        c ∈ Problem.twoSites.constraints ∧ c.rule = .distance r ∧ d.name ∈ c.demands ∧
        sibling ∈ c.demands ∧ sibling ≠ d.name ∧ path.decided sibling = some x ∧
        (Problem.twoSites.greedy.run.exchanges Engine.placeless ()).getLast? =
          some ⟨.location x, .ok none⟩ ∧
        SolveError.missingLocation "a:a2" = .missingLocation (sibling ++ ":" ++ x.id) := by
  have h : Problem.twoSites.greedy.outcome Engine.placeless () =
      some (.error (.missingLocation "a:a2")) := by
    have htest : (Problem.twoSites.greedy.outcome Engine.placeless ()).any (fun r =>
        match r with
        | .error (.missingLocation id) => id == "a:a2"
        | _ => false) = true := by decide +kernel
    obtain ⟨r, hr, hid⟩ := (Option.any_eq_true _ _).1 htest
    split at hid
    · rw [hr, eq_of_beq hid]
    · cases hid
  refine ⟨h, ?_⟩
  rcases (Problem.errors_of_search Problem.ofPlan_twoSites Engine.placeless ()).1 _ h with
    ⟨q, f, -, he⟩ | hsibling
  · cases he
  · exact hsibling

end Placement
