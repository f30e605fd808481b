import Placement.Proofs.Engine.Conversation
import Placement.Proofs.Objective.Frame
import Placement.Search.RandomPick

/-!
# Random picks

The picks commit one candidate for each demand, the one that the choice points at, and touch nothing
else of the path, so on demands whose names differ they cannot fail. The score is set afterwards,
from one evaluation.
-/

namespace Placement.RandomPick

open Solving

variable {p : Problem} {choices : Choices} {i : Nat} {path path' q : Path} {log : List Exchange}

/-! ## Picks -/

/-- One entry for each demand, in their order: the name with the candidate of the pool that the
choice points at. -/
structure Selects (choices : Choices) (ds : List Demand) (es : List (String × Candidate)) :
    Prop where
  names : es.map Prod.fst = ds.map Demand.name
  candidates : ∀ j d, ds[j]? = some d → ∃ x ∈ d.candidates, es[j]? = some (d.name, x) ∧
    d.candidates[choices j % d.candidates.length]? = some x

theorem Selects.nil : Selects choices [] [] := ⟨rfl, fun _ _ h => nomatch h⟩

theorem Selects.cons {d : Demand} {ds : List Demand} {x : Candidate}
    {es : List (String × Candidate)} (hx : d.candidates[choices 0 % d.candidates.length]? = some x)
    (hes : Selects (fun j => choices (j + 1)) ds es) :
    Selects choices (d :: ds) ((d.name, x) :: es) := by
  refine ⟨by rw [List.map_cons, List.map_cons, hes.names], fun j e he => ?_⟩
  cases j with
  | zero =>
    cases he
    exact ⟨x, List.mem_of_getElem? hx, rfl, hx⟩
  | succ j => exact hes.candidates j e he

/-- A choice points at no candidate only where there is none. -/
theorem choice_eq_none {pool : List Candidate} {n : Nat} :
    pool[n % pool.length]? = none ↔ pool = [] := by
  rw [List.getElem?_eq_none_iff]
  constructor
  · intro h
    by_contra hpool
    exact absurd (Nat.mod_lt n (List.length_pos_iff.2 hpool)) (Nat.not_lt.2 h)
  · rintro rfl
    exact Nat.zero_le _

/-- The picks come to a path of commitments alone. -/
theorem picks_some : ∀ {ds : List Demand} {i : Nat} {before : List (String × Candidate)},
    picks choices i (.holding before) ds = .ok (some path') →
      ∃ es, Selects (fun j => choices (i + j)) ds es ∧ path' = .holding (before ++ es)
  | [], i, before, h => by
    cases h
    exact ⟨[], .nil, by rw [List.append_nil]⟩
  | d :: ds, i, before, h => by
    unfold picks at h
    split at h
    · cases h
    · next x hx =>
      obtain ⟨q, hcommit, h⟩ := (except_bind_ok _ _ _).1 h
      obtain ⟨hopen, rfl⟩ := Path.commit_ok.1 hcommit
      rw [← Path.holding_concat (Path.isDecided_eq_false_iff.1 hopen)] at h
      obtain ⟨es, hes, rfl⟩ := picks_some h
      refine ⟨(d.name, x) :: es, .cons hx ?_, by rw [List.append_assoc]; rfl⟩
      simpa only [Nat.add_right_comm, Nat.add_assoc] using hes

theorem picks_none :
    ∀ {ds : List Demand} {i : Nat} {path : Path}, picks choices i path ds = .ok none →
    ∃ d ∈ ds, d.candidates = []
  | [], i, path, h => nomatch h
  | d :: ds, i, path, h => by
    unfold picks at h
    split at h
    · next hnone => exact ⟨d, List.mem_cons_self, choice_eq_none.1 hnone⟩
    · obtain ⟨q, -, h⟩ := (except_bind_ok _ _ _).1 h
      obtain ⟨e, he, hempty⟩ := picks_none h
      exact ⟨e, List.mem_cons_of_mem _ he, hempty⟩

theorem picks_start {ds : List Demand} (h : picks choices 0 {} ds = .ok (some path')) :
    ∃ es, Selects choices ds es ∧ path' = .holding es := by
  have hstart : picks choices 0 (.holding []) ds = .ok (some path') := h
  obtain ⟨es, hes, rfl⟩ := picks_some hstart
  simp only [Nat.zero_add] at hes
  exact ⟨es, hes, rfl⟩

theorem picks_ok {ds : List Demand} (hds : (ds.map Demand.name).Nodup)
    (h : picks choices 0 {} ds = .ok (some path')) :
    path'.committed.map Prod.fst = ds.map Demand.name ∧ path'.heuristicValue = 0.0 := by
  obtain ⟨es, hes, rfl⟩ := picks_start h
  rw [← hes.names] at hds
  rw [(Path.holding_spec hds).2]
  exact ⟨hes.names, rfl⟩

/-- Demands with names of their own that are not decided yet can be committed one after the
other. -/
theorem picks_total (choices : Choices) : ∀ {ds : List Demand} {i : Nat} {path : Path},
    (path.fixed ++ ds.map Demand.name).Nodup → ∃ o, picks choices i path ds = .ok o
  | [], i, path, _ => ⟨some path, rfl⟩
  | d :: ds, i, path, h => by
    unfold picks
    split
    · exact ⟨none, rfl⟩
    · next x _ =>
      have hd : path.isDecided d.name = false :=
        Path.isDecided_eq_false_iff.2 fun hd =>
          (List.nodup_append.1 h).2.2 _ hd _ List.mem_cons_self rfl
      have hnext : ((path.committing d.name x).fixed ++ ds.map Demand.name).Nodup := by
        rw [show (path.committing d.name x).fixed = path.fixed ++ [d.name] from rfl,
          List.append_assoc]
        exact h
      obtain ⟨o, ho⟩ := picks_total choices hnext
      exact ⟨o, (except_bind_ok _ _ _).2 ⟨_, Path.commit_ok.2 ⟨hd, rfl⟩, ho⟩⟩

theorem picks_of_nodup (choices : Choices) (h : (p.demands.map Demand.name).Nodup) :
    ∃ o, picks choices 0 {} p.demands = .ok o :=
  picks_total choices h

/-! ## Scores of picks -/

/-- Picks that cannot be scored have the score zero. -/
theorem scored_eq : scored p path = (do
    match ← Solving.attempt (p.score path) with
    | .ok path => pure path
    | .error _ => pure (path.withScore 0.0)) := by
  unfold scored
  refine (p.compute_bind path _).trans ?_
  refine congrArg (Solving.attempt (p.score path) >>= ·) (funext fun s => ?_)
  cases s with
  | ok scored => rfl
  | error e => rfl

theorem randomPick_of_picks_none (h : picks choices 0 {} p.demands = .ok none) :
    p.randomPick choices = pure none := by
  unfold Problem.randomPick
  rw [h]
  rfl

theorem ends_scored {r : Except SolveError Path} : Ends (scored p path) log r ↔
    ∃ s, Ends (p.score path) log s ∧ r = .ok (match s with
      | .ok q => q
      | .error _ => path.withScore 0.0) := by
  rw [scored_eq, ends_attempt_bind]
  constructor
  · rintro ⟨log₁, log₂, s, rfl, hs, h⟩
    rcases s with e | q
    · obtain ⟨rfl, rfl⟩ := ends_pure.1 h
      rw [List.append_nil]
      exact ⟨_, hs, rfl⟩
    · obtain ⟨rfl, rfl⟩ := ends_pure.1 h
      rw [List.append_nil]
      exact ⟨_, hs, rfl⟩
  · rintro ⟨s, hs, rfl⟩
    refine ⟨log, [], s, (List.append_nil _).symm, hs, ?_⟩
    rcases s with e | q
    · exact ends_pure.2 ⟨rfl, rfl⟩
    · exact ends_pure.2 ⟨rfl, rfl⟩

/-- Once the picks are made, the search ends without an error, be the path scored or not. -/
theorem ends_randomPick {r : Except SolveError (Option Path)} {o : Option Path}
    (ho : picks choices 0 {} p.demands = .ok o) :
    Ends (p.randomPick choices) log r →
      (o = none ∧ r = .ok none) ∨ ∃ path s, o = some path ∧ Ends (p.score path) log s ∧
        r = .ok (some (match s with
        | .ok q => q
        | .error _ => path.withScore 0.0)) := by
  intro h
  unfold Problem.randomPick at h
  rw [ho, ofExcept_ok_bind] at h
  cases o with
  | none =>
    obtain ⟨-, rfl⟩ := ends_pure.1 h
    exact .inl ⟨rfl, rfl⟩
  | some path =>
    refine .inr ⟨path, ?_⟩
    simp only at h
    rw [← bind_pure_comp] at h
    rcases ends_bind.1 h with ⟨e, rfl, hscored⟩ | ⟨log₁, log₂, q, rfl, hq, h⟩
    · obtain ⟨s, -, hs⟩ := ends_scored.1 hscored
      cases hs
    · obtain ⟨rfl, rfl⟩ := ends_pure.1 h
      obtain ⟨s, hs, hq⟩ := ends_scored.1 hq
      cases hq
      rw [List.append_nil]
      exact ⟨s, rfl, hs, rfl⟩

end Placement.RandomPick
