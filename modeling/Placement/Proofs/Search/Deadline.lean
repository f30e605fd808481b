import Placement.Engine.Rehearsed
import Placement.Proofs.Search.EmptyPool
import Placement.Proofs.Search.Questions
import Placement.Settings

/-!
# Deadlines

A question without a reply is no error, so nothing that a search passes over hides it. A solver with
a deadline ends as it would without one, unless such a question is put; it has timed out then, and
only then.
-/

namespace Placement

open Solving

variable {p : Problem} {choices : Choices} {log : List Exchange} {q : Query}

namespace Strategy

/-- The search puts a question that the engine has no reply to. -/
def Hangs {σ : Type} (strategy : Strategy) (p : Problem) (choices : Choices) (engine : Engine σ)
    (s : σ) : Prop :=
  ∃ log q, strategy.Puts p choices log q ∧ engine.Gives s log ∧
    (engine.reply q (engine.after s log)).1 = .silence

variable {σ : Type} {strategy : Strategy} {engine : Engine σ} {s : σ}

/-- Solving asks what the search does, and adds no questions. -/
theorem asks_solve : (Outcome.ofPath <$> strategy.search p choices).Asks log q ↔
    strategy.Puts p choices log q := by
  rw [map_eq_pure_bind, asks_bind, asks_search]
  refine or_iff_left ?_
  rintro ⟨log₁, log₂, path, -, -, h⟩
  exact not_asks_pure h

theorem solve_eq_none_iff : (strategy.solve p choices engine s).result = none ↔
    strategy.Hangs p choices engine s := by
  refine Consult.result_eq_none_iff.trans ?_
  refine exists_congr fun log => exists_congr fun q => and_congr_left fun _ => asks_solve

/-- A search that has come to its end has not timed out. -/
theorem solve_ne_timedOut : (strategy.solve p choices engine s).result ≠ some (.ok .timedOut) := by
  intro h
  have hends : Ends (Outcome.ofPath <$> strategy.search p choices) _ (.ok .timedOut) :=
    (ends_of_outcome h).1
  rw [map_eq_pure_bind] at hends
  obtain ⟨log₁, log₂, path, -, -, hpath⟩ := ends_bind_ok.1 hends
  have houtcome := (ends_pure.1 hpath).2
  cases path with
  | none => cases houtcome
  | some path => cases houtcome

theorem calls_solve_of_puts (h : strategy.Puts p choices log q) (hgives : engine.Gives s log)
    (hsilence : (engine.reply q (engine.after s log)).1 = .silence) :
    (strategy.solve p choices engine s).calls = log.map Exchange.query ++ [q] :=
  Consult.calls_of_asks (asks_solve.2 h) hgives hsilence

end Strategy

/-! ## Solvers -/

namespace Solver

variable {σ : Type} {v : Solver} {engine : Engine σ} {s : σ}

theorem solve_of_none (h : v.deadlineMillis = none) :
    v.solve p choices engine s = v.solveBlocking p choices engine s := by
  unfold solve
  rw [h]

theorem solve_of_some {n : Nat} (h : v.deadlineMillis = some n) : v.solve p choices engine s =
    { v.solveBlocking p choices engine s with
      result := some ((v.solveBlocking p choices engine s).result.getD (.ok .timedOut)) } := by
  unfold solve
  rw [h]
  rfl

/-- Whatever the deadline, a search that comes to its end is reported as it ends. -/
theorem solve_of_result {r : Except SolveError Outcome}
    (h : (v.solveBlocking p choices engine s).result = some r) :
    v.solve p choices engine s = v.solveBlocking p choices engine s := by
  cases hdeadline : v.deadlineMillis with
  | none => exact solve_of_none hdeadline
  | some n =>
    rw [solve_of_some hdeadline, h, Option.getD_some, ← h]

theorem calls_solve :
    (v.solve p choices engine s).calls = (v.solveBlocking p choices engine s).calls := by
  cases hdeadline : v.deadlineMillis with
  | none => rw [solve_of_none hdeadline]
  | some n => rw [solve_of_some hdeadline]

theorem result_of_none (h : (v.solveBlocking p choices engine s).result = none) :
    (v.solve p choices engine s).result = v.deadlineMillis.map fun _ => .ok .timedOut := by
  cases hdeadline : v.deadlineMillis with
  | none => rw [solve_of_none hdeadline, h]; rfl
  | some n => rw [solve_of_some hdeadline, h]; rfl

/-- Solving within a deadline refines solving on the spot, in conversation with whatever engine and
by either strategy. While no question goes without a reply, both have the same result, questions and
engine left, and the result is no time-out. It is a time-out exactly where a deadline is in force
and the search puts a question to which there is no reply, be it for the constraints, for a
candidate on trial or for picks, and whatever would have followed. Then nothing is asked after this
question, and without a deadline there is no result at all. -/
theorem solve_refines_blocking (v : Solver) (p : Problem) (choices : Choices) (engine : Engine σ)
    (s : σ) :
    (¬v.settings.strategy.Hangs p choices engine s →
      v.solve p choices engine s = v.solveBlocking p choices engine s ∧
        ∃ r, (v.solveBlocking p choices engine s).result = some r ∧ r ≠ .ok .timedOut) ∧
    ((v.solve p choices engine s).result = some (.ok .timedOut) ↔
      v.deadlineMillis.isSome = true ∧ v.settings.strategy.Hangs p choices engine s) ∧
    ∀ log q, v.settings.strategy.Puts p choices log q → engine.Gives s log →
      (engine.reply q (engine.after s log)).1 = .silence →
        (v.solveBlocking p choices engine s).result = none ∧
        (v.solve p choices engine s).result = v.deadlineMillis.map (fun _ => .ok .timedOut) ∧
        (v.solve p choices engine s).calls = log.map Exchange.query ++ [q] := by
  have hresult : ¬v.settings.strategy.Hangs p choices engine s →
      ∃ r, (v.solveBlocking p choices engine s).result = some r ∧ r ≠ .ok .timedOut := by
    intro hhangs
    cases hr : (v.solveBlocking p choices engine s).result with
    | none => exact absurd (Strategy.solve_eq_none_iff.1 hr) hhangs
    | some r => exact ⟨r, rfl, fun heq => Strategy.solve_ne_timedOut (hr.trans (congrArg some heq))⟩
  refine ⟨fun hhangs => ?_, ⟨fun h => ?_, ?_⟩, fun log q hputs hgives hsilence => ?_⟩
  · obtain ⟨r, hr, hne⟩ := hresult hhangs
    exact ⟨solve_of_result hr, r, hr, hne⟩
  · by_cases hhangs : v.settings.strategy.Hangs p choices engine s
    · rw [result_of_none (Strategy.solve_eq_none_iff.2 hhangs), Option.map_eq_some_iff] at h
      obtain ⟨n, hn, -⟩ := h
      exact ⟨Option.isSome_of_eq_some hn, hhangs⟩
    · obtain ⟨r, hr, hne⟩ := hresult hhangs
      rw [solve_of_result hr, hr] at h
      exact absurd (Option.some.inj h) hne
  · rintro ⟨hdeadline, hhangs⟩
    obtain ⟨n, hn⟩ := Option.isSome_iff_exists.1 hdeadline
    rw [result_of_none (Strategy.solve_eq_none_iff.2 hhangs), hn]
    rfl
  · have hnone := Strategy.solve_eq_none_iff.2 ⟨log, q, hputs, hgives, hsilence⟩
    exact ⟨hnone, result_of_none hnone,
      calls_solve.trans (Strategy.calls_solve_of_puts hputs hgives hsilence)⟩

/-- Where the engine says nothing about attributes, the solver of a new file times out, and without
its deadline it waits forever. -/
theorem solve_refines_blocking_silent :
    ((Solver.ofSettings .scaffold).solve (.westernSite [.eastern "a1" 1.0]) (fun _ => 0)
        (Engine.rehearsed ⟨[.attributes], [], []⟩) []).result = some (.ok .timedOut) ∧
      (((Solver.ofSettings .scaffold).withDeadline none).solve (.westernSite [.eastern "a1" 1.0])
        (fun _ => 0) (Engine.rehearsed ⟨[.attributes], [], []⟩) []).result = none := by
  have hdemands : (Problem.westernSite [.eastern "a1" 1.0]).demands =
      [] ++ ⟨"a", [.eastern "a1" 1.0], 0⟩ :: [] := rfl
  have hputs : Strategy.Puts (.westernSite [.eastern "a1" 1.0]) (fun _ => 0) .greedy ([] ++ [])
      (.attributes "a" [("region", .string "west")] [.eastern "a1" 1.0]) :=
    .constraints hdemands .start .here
  obtain ⟨-, -, hsilent⟩ :=
    solve_refines_blocking (.ofSettings .scaffold) (.westernSite [.eastern "a1" 1.0])
    (fun _ => 0) (Engine.rehearsed ⟨[.attributes], [], []⟩) []
  obtain ⟨-, -, hwaits⟩ := solve_refines_blocking ((Solver.ofSettings .scaffold).withDeadline none)
    (.westernSite [.eastern "a1" 1.0]) (fun _ => 0) (Engine.rehearsed ⟨[.attributes], [], []⟩) []
  exact ⟨(hsilent _ _ hputs trivial rfl).2.1, (hwaits _ _ hputs trivial rfl).2.1⟩

end Solver

end Placement
