import Placement.Proofs.Engine.Silence
import Placement.Proofs.Search.RandomPick
import Placement.Proofs.Search.Run
import Placement.Search.Strategy

/-!
# Where a search asks

A search puts its questions in three places: where the constraints on the next demand are applied,
where a candidate on trial is scored, and where picks are scored. The last two pass over errors, and
put no question instead.
-/

namespace Placement

open Solving

variable {p : Problem} {choices : Choices} {path : Path} {d : Demand} {ds done : List Demand}
  {log log₀ : List Exchange} {q : Query}

/-! ## Greedy search -/

namespace Greedy

variable {demand : String} {r : Round} {x : Candidate} {pool : List Candidate}

/-- An attempt asks what the trial does, and nothing more for an error that it passes over. -/
theorem asks_attempt : (attempt p demand r x).Asks log q ↔
    (trial p r.path demand x).Asks log q := by
  rw [attempt_eq]
  unfold trial
  rcases r.path.assume demand x with e | assumed
  · rw [Solving.ofExcept_error_bind, Solving.ofExcept_error_bind]
    exact iff_of_false not_asks_throw not_asks_throw
  · rw [Solving.ofExcept_ok_bind, Solving.ofExcept_ok_bind, asks_attempt_bind]
    -- Once the trial has ended, be it with an error, the round is only updated.
    refine or_iff_left ?_
    rintro ⟨log₁, log₂, s, -, -, h⟩
    rcases s with e | scored
    · simp only at h
      split at h
      · exact not_asks_pure h
      · exact not_asks_throw h
    · simp only at h
      split at h
      · exact not_asks_pure h
      · exact not_asks_pure h

theorem asks_attempts : ∀ {pool : List Candidate} {r : Round} {log : List Exchange},
    (attempts p demand r pool).Asks log q ↔
      ∃ before x after log₁ log₂ r', pool = before ++ x :: after ∧
      log = log₁ ++ log₂ ∧ Ends (attempts p demand r before) log₁ (.ok r') ∧
      (trial p r'.path demand x).Asks log₂ q
  | [], r, log => by
    refine iff_of_false not_asks_pure ?_
    rintro ⟨before, x, after, -, -, -, hpool, -⟩
    exact List.append_ne_nil_of_right_ne_nil _ (List.cons_ne_nil _ _) hpool.symm
  | y :: pool, r, log => by
    unfold attempts
    rw [asks_bind, asks_attempt]
    constructor
    · rintro (h | ⟨log₁, log₂, r₁, rfl, hends, h⟩)
      · exact ⟨[], y, pool, [], log, r, rfl, rfl, ends_pure.2 ⟨rfl, rfl⟩, h⟩
      · obtain ⟨before, x, after, log₂, log₃, r', rfl, rfl, hbefore, h⟩ := asks_attempts.1 h
        refine ⟨y :: before, x, after, log₁ ++ log₂, log₃, r', rfl,
          (List.append_assoc _ _ _).symm, ?_, h⟩
        exact ends_bind_ok.2 ⟨log₁, log₂, r₁, rfl, hends, hbefore⟩
    · rintro ⟨before, x, after, log₁, log₂, r', hpool, rfl, hbefore, h⟩
      cases before with
      | nil =>
        cases hpool
        obtain ⟨rfl, hr⟩ := ends_pure.1 hbefore
        cases hr
        exact .inl h
      | cons z before =>
        cases hpool
        obtain ⟨log₃, log₄, r₁, rfl, hends, hbefore⟩ := ends_bind_ok.1 hbefore
        refine .inr ⟨log₃, log₄ ++ log₂, r₁, List.append_assoc _ _ _, hends, ?_⟩
        exact asks_attempts.2 ⟨before, x, after, log₄, log₂, r', rfl, rfl, hbefore, h⟩

/-- A round asks what the constraints do, and then what the trials of the survivors do. -/
theorem asks_round : (round p path d).Asks log q ↔
    (p.survivors (path.resolving d.name) d).Asks log q ∨
      ∃ log₁ log₂ log₃ before x after r, log = log₁ ++ (log₂ ++ log₃) ∧
        Ends (p.survivors (path.resolving d.name) d) log₁ (.ok (before ++ x :: after)) ∧
        Ends (attempts p d.name (opening p.objective.goal (path.resolving d.name)) before) log₂
          (.ok r) ∧
        (trial p (path.resolving d.name) d.name x).Asks log₃ q := by
  unfold round
  rw [asks_bind]
  refine or_congr_right ⟨?_, ?_⟩
  · rintro ⟨log₁, log₂, pool, rfl, hpool, h⟩
    rcases asks_bind.1 h with h | ⟨log₃, log₄, r, -, -, h⟩
    · obtain ⟨before, x, after, log₃, log₄, r, rfl, rfl, hbefore, h⟩ := asks_attempts.1 h
      rw [trial_congr (sameBut_attempts (Path.SameBut.refl _ _) hbefore)] at h
      exact ⟨log₁, log₃, log₄, before, x, after, r, rfl, hpool, hbefore, h⟩
    · exact absurd h not_asks_ofExcept
  · rintro ⟨log₁, log₂, log₃, before, x, after, r, rfl, hpool, hbefore, h⟩
    have htrial : (trial p r.path d.name x).Asks log₃ q := by
      rwa [trial_congr (sameBut_attempts (Path.SameBut.refl _ _) hbefore)]
    refine ⟨log₁, log₂ ++ log₃, _, rfl, hpool, asks_bind.2 (.inl ?_)⟩
    exact asks_attempts.2 ⟨before, x, after, log₂, log₃, r, rfl, rfl, hbefore, htrial⟩

theorem exists_round_of_asks : ∀ {ds done : List Demand} {log log₀ : List Exchange} {path : Path},
    Reaches p done log₀ (resting path) → (rounds p path ds).Asks log q →
      ∃ ds₁ d ds₂ log₁ log₂ path', ds = ds₁ ++ d :: ds₂ ∧ log = log₁ ++ log₂ ∧
        Reaches p (done ++ ds₁) (log₀ ++ log₁) path' ∧ (round p path' d).Asks log₂ q
  | [], done, log, log₀, path, _, h => absurd h not_asks_pure
  | d :: ds, done, log, log₀, path, hpath, h => by
    unfold rounds at h
    rcases asks_bind.1 h with h | ⟨log₁, log₂, o, rfl, hd, h⟩
    · refine ⟨[], d, ds, [], log, resting path, rfl, rfl, ?_, h⟩
      rw [List.append_nil, List.append_nil]
      exact hpath
    · cases o with
      | none => exact absurd h not_asks_pure
      | some path' =>
        obtain ⟨ds₁, e, ds₂, log₃, log₄, path'', rfl, rfl, hreaches, h⟩ :=
          exists_round_of_asks (.round hpath hd) h
        rw [List.append_assoc, List.append_assoc] at hreaches
        exact ⟨d :: ds₁, e, ds₂, log₁ ++ log₃, log₄, path'', rfl, (List.append_assoc _ _ _).symm,
          hreaches, h⟩

/-- A run asks what one of its rounds does, wherever it has got by then. -/
theorem asks_rounds : (rounds p {} ds).Asks log q ↔
    ∃ ds₁ d ds₂ log₁ log₂ path, ds = ds₁ ++ d :: ds₂ ∧
    log = log₁ ++ log₂ ∧ Reaches p ds₁ log₁ path ∧ (round p path d).Asks log₂ q := by
  constructor
  · intro h
    have hstart : Reaches p [] [] (resting {}) := .start
    exact exists_round_of_asks hstart h
  · rintro ⟨ds₁, d, ds₂, log₁, log₂, path, rfl, rfl, hreaches, h⟩
    rw [rounds_append]
    exact asks_bind.2 (.inr ⟨log₁, log₂, some path, rfl, hreaches.ends, asks_bind.2 (.inl h)⟩)

end Greedy

/-! ## Random picks -/

theorem RandomPick.asks_scored : (scored p path).Asks log q ↔ (p.score path).Asks log q := by
  rw [RandomPick.scored_eq, asks_attempt_bind]
  refine or_iff_left ?_
  rintro ⟨log₁, log₂, r, -, -, h⟩
  cases r with
  | ok path => exact not_asks_pure h
  | error e => exact not_asks_pure h

theorem RandomPick.asks_randomPick : (p.randomPick choices).Asks log q ↔
    ∃ path, picks choices 0 {} p.demands = .ok (some path) ∧ (p.score path).Asks log q := by
  unfold Problem.randomPick
  rcases picks choices 0 {} p.demands with e | _ | path
  · refine iff_of_false not_asks_throw ?_
    rintro ⟨path, h, -⟩
    cases h
  · refine iff_of_false not_asks_pure ?_
    rintro ⟨path, h, -⟩
    cases h
  · rw [Solving.ofExcept_ok_bind]
    simp only
    rw [map_eq_pure_bind, asks_bind, asks_scored]
    constructor
    · rintro (h | ⟨log₁, log₂, a, -, -, h⟩)
      · exact ⟨path, rfl, h⟩
      · exact absurd h not_asks_pure
    · rintro ⟨path', hpath, h⟩
      cases hpath
      exact .inl h

/-! ## Any search -/

/-- After the exchanges, a search puts the question: where the constraints on the next demand are
applied to its pool, where one of the survivors is assumed and scored after those before it, or
where picks are scored. -/
inductive Strategy.Puts (p : Problem) (choices : Choices) :
    Strategy → List Exchange → Query → Prop where
  | constraints {done rest : List Demand} {d : Demand} {log log' : List Exchange} {path : Path}
      {q : Query} :
      p.demands = done ++ d :: rest → Greedy.Reaches p done log path →
        (p.survivors (path.resolving d.name) d).Asks log' q → Puts p choices .greedy (log ++ log') q
  | trial {done rest : List Demand} {d : Demand} {log log₁ log₂ log₃ : List Exchange} {path : Path}
      {before after : List Candidate} {x : Candidate} {r : Greedy.Round} {q : Query} :
      p.demands = done ++ d :: rest → Greedy.Reaches p done log path →
        Ends (p.survivors (path.resolving d.name) d) log₁ (.ok (before ++ x :: after)) →
          Ends (Greedy.attempts p d.name (Greedy.opening p.objective.goal (path.resolving d.name))
              before) log₂ (.ok r) →
            (Greedy.trial p (path.resolving d.name) d.name x).Asks log₃ q →
              Puts p choices .greedy (log ++ (log₁ ++ (log₂ ++ log₃))) q
  | picks {path : Path} {log : List Exchange} {q : Query} :
      RandomPick.picks choices 0 {} p.demands = .ok (some path) → (p.score path).Asks log q →
        Puts p choices .randomPick log q

namespace Strategy

theorem asks_greedy : p.greedy.Asks log q ↔ Puts p choices .greedy log q := by
  unfold Problem.greedy
  rw [Greedy.asks_rounds]
  constructor
  · rintro ⟨ds₁, d, ds₂, log₁, log₂, path, hds, rfl, hreaches, h⟩
    rcases Greedy.asks_round.1 h with
      h | ⟨log₃, log₄, log₅, before, x, after, r, rfl, hpool, hbefore, h⟩
    · exact .constraints hds hreaches h
    · exact .trial hds hreaches hpool hbefore h
  · intro h
    cases h with
    | constraints hds hreaches h =>
      exact ⟨_, _, _, _, _, _, hds, rfl, hreaches, Greedy.asks_round.2 (.inl h)⟩
    | trial hds hreaches hpool hbefore h =>
      refine ⟨_, _, _, _, _, _, hds, rfl, hreaches, Greedy.asks_round.2 (.inr ?_)⟩
      exact ⟨_, _, _, _, _, _, _, rfl, hpool, hbefore, h⟩

theorem asks_search {strategy : Strategy} : (strategy.search p choices).Asks log q ↔
    strategy.Puts p choices log q := by
  cases strategy with
  | greedy => exact asks_greedy
  | randomPick =>
    refine RandomPick.asks_randomPick.trans ⟨?_, fun h => ?_⟩
    · rintro ⟨path, hpath, h⟩
      exact .picks hpath h
    · cases h with
      | picks hpath h => exact ⟨_, hpath, h⟩

end Strategy

end Placement
