import Placement.Engine.Consult

/-!
# Conversations

`x.Ends log a`: with the exchanges `log` the computation `x` ends with `a`, whatever engine it talks
to. `Gives` says that an engine, taken from a state on, responds as a log says. A run of `x` that
comes to its end is an `Ends` along a log that the engine gives, and the other way round, so what
holds of every `Ends` holds of every engine. `Solving.Ends` takes the computations that may fail
apart at their binds.
-/

namespace Placement

/-- One question with what came back. -/
structure Exchange where
  query : Query
  response : Response query

/-- From a state on, the engine responds as the log says. -/
def Engine.Gives {σ : Type} (engine : Engine σ) : σ → List Exchange → Prop
  | _, [] => True
  | s, e :: log =>
    (engine.reply e.query s).1 = .response e.response ∧ engine.Gives (engine.reply e.query s).2 log

theorem Engine.Gives.of_append {σ : Type} {engine : Engine σ} {log₁ log₂ : List Exchange} :
    ∀ {s : σ}, engine.Gives s (log₁ ++ log₂) → engine.Gives s log₁ := by
  induction log₁ with
  | nil => intro s _; trivial
  | cons e log₁ ih => intro s h; exact ⟨h.1, ih h.2⟩

namespace Consult

variable {σ α β : Type}

/-- The exchanges of a conversation; a call that never returns is none. -/
def exchanges (engine : Engine σ) : Consult α → σ → List Exchange
  | done _, _ => []
  | ask q next, s =>
    match engine.reply q s with
    | (.silence, _) => []
    | (.response r, s) => ⟨q, r⟩ :: (next r).exchanges engine s

/-- With the exchanges `log`, the computation ends with `a`. -/
inductive Ends : Consult α → List Exchange → α → Prop where
  | done (a : α) : Ends (done a) [] a
  | ask {q : Query} {next : Response q → Consult α} {r : Response q} {log : List Exchange} {a : α} :
      Ends (next r) log a → Ends (ask q next) (⟨q, r⟩ :: log) a

/-! ## Runs -/

section
variable {engine : Engine σ} {q : Query} {next : Response q → Consult α} {r : Response q} {s s' : σ}

theorem result_ask_silence (h : engine.reply q s = (.silence, s')) :
    ((ask q next).run engine s).result = none := by
  unfold run
  rw [h]

theorem result_ask_response (h : engine.reply q s = (.response r, s')) :
    ((ask q next).run engine s).result = ((next r).run engine s').result := by
  rw [run, h]

theorem state_ask_response (h : engine.reply q s = (.response r, s')) :
    ((ask q next).run engine s).state = ((next r).run engine s').state := by
  rw [run, h]

theorem exchanges_ask_response (h : engine.reply q s = (.response r, s')) :
    (ask q next).exchanges engine s = ⟨q, r⟩ :: (next r).exchanges engine s' := by
  rw [exchanges, h]

end

theorem ends_of_run {engine : Engine σ} {x : Consult α} {a : α} :
    ∀ {s : σ}, (x.run engine s).result = some a →
      Ends x (x.exchanges engine s) a ∧ engine.Gives s (x.exchanges engine s) := by
  induction x with
  | done b =>
    intro s h
    cases h
    exact ⟨.done _, trivial⟩
  | ask q next ih =>
    intro s h
    rcases hr : engine.reply q s with ⟨r | _, s'⟩
    · rw [result_ask_response hr] at h
      obtain ⟨he, hg⟩ := ih r h
      rw [exchanges_ask_response hr]
      refine ⟨.ask he, ?_, ?_⟩
      · rw [hr]
      · rw [hr]; exact hg
    · rw [result_ask_silence hr] at h
      cases h

theorem run_of_ends {engine : Engine σ} {x : Consult α} {log : List Exchange} {a : α}
    (h : Ends x log a) :
    ∀ {s : σ}, engine.Gives s log → (x.run engine s).result = some a := by
  induction h with
  | done a => intro s _; rfl
  | @ask q next r log a _ ih =>
    intro s ⟨hr, hg⟩
    rw [result_ask_response (Prod.ext hr rfl)]
    exact ih hg

/-! ## Binds -/

/-- The second part of a composition takes up the conversation where the first one left it. -/
theorem result_bind {engine : Engine σ} {f : α → Consult β} {x : Consult α} :
    ∀ {s : σ}, ((x >>= f).run engine s).result =
      (x.run engine s).result.bind fun a => ((f a).run engine (x.run engine s).state).result := by
  induction x with
  | done a => intro s; rfl
  | ask q next ih =>
    intro s
    rw [ask_bind]
    rcases hr : engine.reply q s with ⟨r | _, s'⟩
    · rw [result_ask_response hr, result_ask_response hr, state_ask_response hr]
      exact ih r
    · rw [result_ask_silence hr, result_ask_silence hr]
      rfl

theorem ends_done {a b : α} {log : List Exchange} : Ends (done a) log b ↔ log = [] ∧ b = a := by
  constructor
  · intro h; cases h; exact ⟨rfl, rfl⟩
  · rintro ⟨rfl, rfl⟩; exact .done _

theorem Ends.bind {x : Consult α} {f : α → Consult β} {log₁ log₂ : List Exchange} {a : α} {b : β}
    (h₁ : Ends x log₁ a) (h₂ : Ends (f a) log₂ b) : Ends (x >>= f) (log₁ ++ log₂) b := by
  induction h₁ with
  | done a => exact h₂
  | ask _ ih => exact .ask (ih h₂)

theorem ends_of_bind {x : Consult α} {f : α → Consult β} {b : β} :
    ∀ {log : List Exchange}, Ends (x >>= f) log b →
      ∃ log₁ log₂ a, log = log₁ ++ log₂ ∧ Ends x log₁ a ∧ Ends (f a) log₂ b := by
  induction x with
  | done a => intro log h; exact ⟨[], log, a, rfl, .done a, h⟩
  | ask q next ih =>
    intro log h
    cases h with
    | ask h =>
      obtain ⟨log₁, log₂, a, rfl, h₁, h₂⟩ := ih _ h
      exact ⟨_ :: log₁, log₂, a, rfl, .ask h₁, h₂⟩

end Consult

/-! ## Computations that may fail -/

namespace Solving

variable {σ α β : Type}

/-- How a computation ends in conversation with an engine; nothing if a call never returns. -/
def outcome (x : Solving α) (engine : Engine σ) (s : σ) : Option (Except SolveError α) :=
  (x.run.run engine s).result

/-- With the exchanges `log`, the computation ends with a value or an error. -/
def Ends (x : Solving α) (log : List Exchange) (r : Except SolveError α) : Prop :=
  Consult.Ends x.run log r

theorem ends_of_outcome {x : Solving α} {engine : Engine σ} {s : σ} {r : Except SolveError α}
    (h : x.outcome engine s = some r) :
    Ends x (x.run.exchanges engine s) r ∧ engine.Gives s (x.run.exchanges engine s) :=
  Consult.ends_of_run h

theorem outcome_of_ends {x : Solving α} {engine : Engine σ} {s : σ} {log : List Exchange}
    {r : Except SolveError α} (h : Ends x log r) (hg : engine.Gives s log) :
    x.outcome engine s = some r :=
  Consult.run_of_ends h hg

theorem run_bind (x : Solving α) (f : α → Solving β) :
    (x >>= f).run = x.run >>= ExceptT.bindCont f := rfl

/-- What follows a value takes up the conversation; an error or a call that never returns is the
outcome at once. -/
theorem outcome_bind_run {x : Solving α} {f : α → Solving β} {engine : Engine σ} {s : σ} :
    (x >>= f).outcome engine s = (x.outcome engine s).bind fun r =>
      match r with
      | .ok a => (f a).outcome engine (x.run.run engine s).state
      | .error e => some (.error e) := by
  unfold outcome
  rw [run_bind, Consult.result_bind]
  refine Option.bind_congr fun r _ => ?_
  cases r with
  | ok a => rfl
  | error e => rfl

@[simp] theorem ofExcept_ok_bind (a : α) (f : α → Solving β) : ofExcept (.ok a) >>= f = f a := rfl

@[simp] theorem ofExcept_error_bind (e : SolveError) (f : α → Solving β) :
    ofExcept (.error e) >>= f = throw e := rfl

theorem ends_pure {a : α} {log : List Exchange} {r : Except SolveError α} :
    Ends (pure a) log r ↔ log = [] ∧ r = .ok a :=
  Consult.ends_done

theorem ends_throw {e : SolveError} {log : List Exchange} {r : Except SolveError α} :
    Ends (throw e) log r ↔ log = [] ∧ r = .error e :=
  Consult.ends_done

theorem ends_ofExcept {x : Except SolveError α} {log : List Exchange} {r : Except SolveError α} :
    Ends (ofExcept x) log r ↔ log = [] ∧ r = x :=
  Consult.ends_done

/-- A composition ends with an error of its first part, or as its second part does. -/
theorem ends_bind {x : Solving α} {f : α → Solving β} {log : List Exchange}
    {r : Except SolveError β} :
    Ends (x >>= f) log r ↔
      (∃ e, r = .error e ∧ Ends x log (.error e)) ∨
        ∃ log₁ log₂ a, log = log₁ ++ log₂ ∧ Ends x log₁ (.ok a) ∧ Ends (f a) log₂ r := by
  constructor
  · intro h
    obtain ⟨log₁, log₂, r', rfl, h₁, h₂⟩ := Consult.ends_of_bind h
    cases r' with
    | ok a => exact .inr ⟨log₁, log₂, a, rfl, h₁, h₂⟩
    | error e =>
      obtain ⟨rfl, rfl⟩ := Consult.ends_done.1 h₂
      rw [List.append_nil]
      exact .inl ⟨e, rfl, h₁⟩
  · rintro (⟨e, rfl, h⟩ | ⟨log₁, log₂, a, rfl, h₁, h₂⟩)
    · rw [← List.append_nil log]
      exact Consult.Ends.bind h (.done _)
    · exact Consult.Ends.bind h₁ h₂

theorem ends_bind_ok {x : Solving α} {f : α → Solving β} {log : List Exchange} {b : β} :
    Ends (x >>= f) log (.ok b) ↔
      ∃ log₁ log₂ a, log = log₁ ++ log₂ ∧ Ends x log₁ (.ok a) ∧ Ends (f a) log₂ (.ok b) := by
  rw [ends_bind]
  simp

theorem ends_bind_error {x : Solving α} {f : α → Solving β} {log : List Exchange} {e : SolveError} :
    Ends (x >>= f) log (.error e) ↔
      Ends x log (.error e) ∨
        ∃ log₁ log₂ a, log = log₁ ++ log₂ ∧ Ends x log₁ (.ok a) ∧ Ends (f a) log₂ (.error e) := by
  rw [ends_bind]
  simp

theorem run_attempt_bind (x : Solving α) (f : Except SolveError α → Solving β) :
    (attempt x >>= f).run = x.run >>= fun r => (f r).run :=
  Consult.bind_assoc' x.run (Consult.done ∘ Except.ok) (ExceptT.bindCont f)

/-- What follows an attempt starts from what is attempted ends with, be it an error. -/
theorem ends_attempt_bind {x : Solving α} {f : Except SolveError α → Solving β}
    {log : List Exchange} {r : Except SolveError β} :
    Ends (attempt x >>= f) log r ↔
      ∃ log₁ log₂ s, log = log₁ ++ log₂ ∧ Ends x log₁ s ∧ Ends (f s) log₂ r := by
  unfold Ends
  rw [run_attempt_bind]
  constructor
  · exact Consult.ends_of_bind
  · rintro ⟨log₁, log₂, s, rfl, hx, hf⟩
    exact Consult.Ends.bind hx hf

theorem ends_ask_ok {q : Query} {log : List Exchange} {a : q.Answer} :
    Ends (ask q) log (.ok a) ↔ log = [⟨q, .ok a⟩] := by
  constructor
  · intro h
    cases h with
    | @ask _ _ r log _ h =>
      cases r with
      | ok b => cases h; rfl
      | error e => cases h
  · rintro rfl
    exact .ask (.done _)

theorem ends_ask_error {q : Query} {log : List Exchange} {e : SolveError} :
    Ends (ask q) log (.error e) ↔ ∃ f, log = [⟨q, .error f⟩] ∧ e = .engine f := by
  constructor
  · intro h
    cases h with
    | @ask _ _ r log _ h =>
      cases r with
      | ok b => cases h
      | error f => cases h; exact ⟨f, rfl, rfl⟩
  · rintro ⟨f, rfl, rfl⟩
    exact .ask (.done _)

/-! ## Failures of the engine -/

/-- The last thing that came back is a failure of the engine, and it is the error. -/
def Failed (log : List Exchange) (e : SolveError) : Prop :=
  ∃ q f, log.getLast? = some ⟨q, .error f⟩ ∧ e = .engine f

theorem getLast?_of_suffix {log log' : List Exchange} {x : Exchange} (h : log' <:+ log)
    (hx : log'.getLast? = some x) :
    log.getLast? = some x := by
  obtain ⟨pre, rfl⟩ := h
  rw [List.getLast?_append, hx]
  rfl

theorem Failed.of_suffix {log log' : List Exchange} {e : SolveError} (h : log' <:+ log)
    (he : Failed log' e) :
    Failed log e := by
  obtain ⟨q, f, hlast, rfl⟩ := he
  exact ⟨q, f, getLast?_of_suffix h hlast, rfl⟩

theorem failed_of_ask {q : Query} {log : List Exchange} {e : SolveError}
    (h : Ends (ask q) log (.error e)) :
    Failed log e := by
  obtain ⟨f, rfl, rfl⟩ := ends_ask_error.1 h
  exact ⟨q, f, rfl, rfl⟩

end Solving

end Placement
