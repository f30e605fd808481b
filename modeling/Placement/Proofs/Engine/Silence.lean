import Placement.Proofs.Engine.Calls

/-!
# Calls that never return

`x.Asks log q`: with the exchanges `log` behind it, the computation `x` puts the question `q`. It
waits forever in conversation with an engine exactly where the engine gives such a log and has no
reply to the question, and nothing that the computation does with errors matters there.
-/

namespace Placement

variable {σ α β : Type}

/-- The state in which the exchanges leave the engine. -/
def Engine.after (engine : Engine σ) : σ → List Exchange → σ
  | s, [] => s
  | s, e :: log => engine.after (engine.reply e.query s).2 log

namespace Consult

variable {engine : Engine σ} {x : Consult α} {f : α → Consult β} {q : Query} {log : List Exchange}

inductive Asks : Consult α → List Exchange → Query → Prop where
  | here {q : Query} {next : Response q → Consult α} : Asks (ask q next) [] q
  | later {q q' : Query} {next : Response q → Consult α} {r : Response q} {log : List Exchange} :
      Asks (next r) log q' → Asks (ask q next) (⟨q, r⟩ :: log) q'

/-- A computation comes to no end where it has put a question that is not replied to. -/
theorem result_eq_none_iff : ∀ {s : σ}, (x.run engine s).result = none ↔
    ∃ log q, Asks x log q ∧ engine.Gives s log ∧
      (engine.reply q (engine.after s log)).1 = .silence := by
  induction x with
  | done a =>
    intro s
    refine iff_of_false (fun h => nomatch h) ?_
    rintro ⟨log, q, hasks, -⟩
    cases hasks
  | ask q next ih =>
    intro s
    rcases hr : engine.reply q s with ⟨r | _, s'⟩
    · rw [result_ask_response hr, ih r]
      constructor
      · rintro ⟨log, q', hasks, hgives, hsilence⟩
        refine ⟨⟨q, r⟩ :: log, q', .later hasks, ⟨?_, ?_⟩, ?_⟩
        · rw [hr]
        · rw [hr]
          exact hgives
        · rw [Engine.after, hr]
          exact hsilence
      · rintro ⟨log, q', hasks, hgives, hsilence⟩
        cases hasks with
        | here =>
          rw [Engine.after, hr] at hsilence
          cases hsilence
        | @later _ _ _ r' log hasks =>
          obtain ⟨hreply, hgives⟩ := hgives
          rw [hr] at hreply hgives
          rw [Engine.after, hr] at hsilence
          cases hreply
          exact ⟨log, q', hasks, hgives, hsilence⟩
    · rw [result_ask_silence hr]
      refine iff_of_true rfl ⟨[], q, .here, trivial, ?_⟩
      rw [Engine.after, hr]

theorem silence_of_run {s : σ} (h : (x.run engine s).result = none) :
    ∃ q s', (engine.reply q s').1 = .silence := by
  obtain ⟨log, q, -, -, hsilence⟩ := result_eq_none_iff.1 h
  exact ⟨q, engine.after s log, hsilence⟩

/-- Nothing is asked after the question that is not replied to. -/
theorem calls_of_asks (h : Asks x log q) : ∀ {s : σ}, engine.Gives s log →
    (engine.reply q (engine.after s log)).1 = .silence →
      (x.run engine s).calls = log.map Exchange.query ++ [q] := by
  induction h with
  | here =>
    intro s _ hsilence
    exact calls_ask_silence (Prod.ext hsilence rfl)
  | later _ ih =>
    intro s hgives hsilence
    obtain ⟨hreply, hgives⟩ := hgives
    rw [calls_ask_response (Prod.ext hreply rfl), ih hgives hsilence]
    rfl

theorem asks_bind : ∀ {log : List Exchange}, Asks (x >>= f) log q ↔
    Asks x log q ∨ ∃ log₁ log₂ a, log = log₁ ++ log₂ ∧ Ends x log₁ a ∧ Asks (f a) log₂ q := by
  induction x with
  | done a =>
    intro log
    constructor
    · exact fun h => .inr ⟨[], log, a, rfl, .done a, h⟩
    · rintro (h | ⟨log₁, log₂, b, rfl, hends, h⟩)
      · cases h
      · obtain ⟨rfl, rfl⟩ := ends_done.1 hends
        exact h
  | ask q' next ih =>
    intro log
    constructor
    · intro h
      cases h with
      | here => exact .inl .here
      | later h =>
        rcases (ih _).1 h with h | ⟨log₁, log₂, a, rfl, hends, h⟩
        · exact .inl (.later h)
        · exact .inr ⟨_ :: log₁, log₂, a, rfl, .ask hends, h⟩
    · rintro (h | ⟨log₁, log₂, a, rfl, hends, h⟩)
      · cases h with
        | here => exact .here
        | later h => exact .later ((ih _).2 (.inl h))
      · cases hends with
        | ask hends => exact .later ((ih _).2 (.inr ⟨_, _, a, rfl, hends, h⟩))

theorem asksOnly_iff {P : Query → Prop} : AsksOnly P x ↔ ∀ log q, Asks x log q → P q := by
  constructor
  · intro h
    induction h with
    | done a => exact fun log q hasks => nomatch hasks
    | ask hq _ ih =>
      intro log q hasks
      cases hasks with
      | here => exact hq
      | later hasks => exact ih _ _ _ hasks
  · intro h
    induction x with
    | done a => exact .done a
    | ask q next ih =>
      exact .ask (h _ _ .here) fun r => ih r fun log q hasks => h _ _ (.later hasks)

end Consult

/-! ## Computations that may fail -/

namespace Solving

variable {engine : Engine σ} {s : σ} {q : Query} {log : List Exchange} {x : Solving α}

/-- With the exchanges `log` behind it, the computation puts the question. -/
def Asks (x : Solving α) (log : List Exchange) (q : Query) : Prop := x.run.Asks log q

theorem not_asks_pure {a : α} : ¬Asks (pure a) log q := fun h => nomatch h

theorem not_asks_throw {e : SolveError} : ¬Asks (throw e : Solving α) log q := fun h => nomatch h

theorem not_asks_ofExcept {x : Except SolveError α} : ¬Asks (ofExcept x) log q := fun h => nomatch h

/-- A computation asks nothing but what satisfies `P` where each question that it puts does. -/
theorem asksOnly_iff {P : Query → Prop} : AsksOnly P x ↔ ∀ log q, Asks x log q → P q :=
  Consult.asksOnly_iff

/-- What follows a value puts its questions after those that have led to it. -/
theorem asks_bind {f : α → Solving β} : Asks (x >>= f) log q ↔
    Asks x log q ∨ ∃ log₁ log₂ a, log = log₁ ++ log₂ ∧ Ends x log₁ (.ok a) ∧ Asks (f a) log₂ q := by
  unfold Asks
  rw [run_bind, Consult.asks_bind]
  refine or_congr_right ⟨?_, ?_⟩
  · rintro ⟨log₁, log₂, r, rfl, hends, h⟩
    cases r with
    | ok a => exact ⟨log₁, log₂, a, rfl, hends, h⟩
    | error e => exact absurd h not_asks_throw
  · rintro ⟨log₁, log₂, a, rfl, hends, h⟩
    exact ⟨log₁, log₂, .ok a, rfl, hends, h⟩

/-- An attempt puts the questions of what is attempted. -/
theorem asks_attempt_bind {f : Except SolveError α → Solving β} : Asks (attempt x >>= f) log q ↔
    Asks x log q ∨ ∃ log₁ log₂ r, log = log₁ ++ log₂ ∧ Ends x log₁ r ∧ Asks (f r) log₂ q := by
  unfold Asks
  rw [run_attempt_bind]
  exact Consult.asks_bind

end Solving

end Placement
