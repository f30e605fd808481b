import Placement.Engine.Recorded
import Placement.Proofs.Engine.Silence

/-!
# Engines without memory

The replies of a stateless engine depend on the question alone. What it says in a conversation is
then a property of each exchange by itself, and a computation has one outcome, whatever was asked
before.
-/

namespace Placement

namespace Engine

variable {σ : Type} {engine : Engine σ} {log log₁ log₂ : List Exchange}

/-- What the engine replies depends on the question alone. -/
def Stateless (engine : Engine σ) : Prop := ∀ q s s', (engine.reply q s).1 = (engine.reply q s').1

theorem stateless_ofResponses (respond : (q : Query) → Response q) :
    (Engine.ofResponses respond).Stateless :=
  fun _ _ _ => rfl

theorem stateless_recorded : Engine.recorded.Stateless := stateless_ofResponses _

/-- In every state the engine responds as each of the exchanges says. -/
def Answers (engine : Engine σ) (log : List Exchange) : Prop :=
  ∀ e ∈ log, ∀ s, (engine.reply e.query s).1 = .response e.response

theorem answers_append : engine.Answers (log₁ ++ log₂) ↔
    engine.Answers log₁ ∧ engine.Answers log₂ :=
  List.forall_mem_append

theorem Answers.gives (h : engine.Answers log) : ∀ s, engine.Gives s log := by
  induction log with
  | nil => intro s; trivial
  | cons e log ih =>
    intro s
    obtain ⟨he, hlog⟩ := List.forall_mem_cons.1 h
    exact ⟨he s, ih hlog _⟩

theorem Gives.answers (he : engine.Stateless) :
    ∀ {s : σ}, engine.Gives s log → engine.Answers log := by
  induction log with
  | nil => intro s _ e hm; cases hm
  | cons e log ih =>
    intro s h
    exact List.forall_mem_cons.2 ⟨fun s' => (he _ s' s).trans h.1, ih h.2⟩

/-- An answer from the records is the one that they determine. -/
theorem answers_recorded : Engine.recorded.Answers log ↔
    ∀ e ∈ log, e.response = .ok (Recorded.answer e.query) := by
  refine forall₂_congr fun e _ => ⟨fun h => ?_, fun h s => congrArg Reply.response h.symm⟩
  have hreply : Reply.response (.ok (Recorded.answer e.query)) = Reply.response e.response := h ()
  injection hreply with hr
  exact hr.symm

end Engine

theorem Consult.result_congr {σ α : Type} {engine : Engine σ} (he : engine.Stateless)
    {x : Consult α} :
    ∀ s s' : σ, (x.run engine s).result = (x.run engine s').result := by
  induction x with
  | done a => intro s s'; rfl
  | ask q next ih =>
    intro s s'
    have hreply := he q s s'
    rcases hr : engine.reply q s with ⟨r | _, t⟩ <;>
      rcases hr' : engine.reply q s' with ⟨r' | _, t'⟩ <;>
      rw [hr, hr'] at hreply
    · cases hreply
      rw [result_ask_response hr, result_ask_response hr']
      exact ih r t t'
    · cases hreply
    · cases hreply
    · rw [result_ask_silence hr, result_ask_silence hr']

namespace Solving

variable {σ α β : Type} {engine : Engine σ}

/-- The outcome is what a conversation of the engine's answers ends with, from whatever state. -/
theorem outcome_iff (he : engine.Stateless) {x : Solving α} {s : σ} {r : Except SolveError α} :
    x.outcome engine s = some r ↔ ∃ log, Ends x log r ∧ engine.Answers log := by
  constructor
  · intro h
    obtain ⟨hends, hgives⟩ := ends_of_outcome h
    exact ⟨_, hends, hgives.answers he⟩
  · rintro ⟨log, hends, hanswers⟩
    exact outcome_of_ends hends (hanswers.gives s)

/-! ## Outcomes part by part -/

theorem outcome_pure {a : α} {s : σ} : (pure a : Solving α).outcome engine s = some (.ok a) := rfl

/-- What follows a value has an outcome of its own; an error or a call that never returns is the
outcome at once. -/
theorem outcome_bind (he : engine.Stateless) {x : Solving α} {f : α → Solving β} {s : σ} :
    (x >>= f).outcome engine s = (x.outcome engine s).bind fun r =>
      match r with
      | .ok a => (f a).outcome engine s
      | .error e => some (.error e) := by
  rw [outcome_bind_run]
  refine Option.bind_congr fun r _ => ?_
  cases r with
  | ok a => exact Consult.result_congr he _ _
  | error e => rfl

theorem outcome_bind_ok (he : engine.Stateless) {x : Solving α} {f : α → Solving β} {s : σ} {a : α}
    (h : x.outcome engine s = some (.ok a)) :
    (x >>= f).outcome engine s = (f a).outcome engine s := by
  rw [outcome_bind he, h]
  rfl

theorem outcome_bind_error (he : engine.Stateless) {x : Solving α} {f : α → Solving β} {s : σ}
    {e : SolveError} (h : x.outcome engine s = some (.error e)) :
    (x >>= f).outcome engine s = some (.error e) := by
  rw [outcome_bind he, h]
  rfl

/-- A composition has a value where both of its parts have one. -/
theorem outcome_bind_eq_ok (he : engine.Stateless) {x : Solving α} {f : α → Solving β} {s : σ}
    {b : β} :
    (x >>= f).outcome engine s = some (.ok b) ↔
      ∃ a, x.outcome engine s = some (.ok a) ∧ (f a).outcome engine s = some (.ok b) := by
  rw [outcome_bind he]
  rcases x.outcome engine s with _ | _ | a <;> simp

theorem outcome_bind_eq_error (he : engine.Stateless) {x : Solving α} {f : α → Solving β} {s : σ}
    {e : SolveError} :
    (x >>= f).outcome engine s = some (.error e) ↔ x.outcome engine s = some (.error e) ∨
      ∃ a, x.outcome engine s = some (.ok a) ∧ (f a).outcome engine s = some (.error e) := by
  rw [outcome_bind he]
  rcases x.outcome engine s with _ | _ | a <;> simp

/-! ## The records -/

/-- What is asked of the records is what they determine. -/
theorem ends_ask_recorded {q : Query} {log : List Exchange} {a : q.Answer}
    (h : Ends (ask q) log (.ok a)) (ha : Engine.recorded.Answers log) : a = Recorded.answer q := by
  rw [ends_ask_ok.1 h] at ha
  have hresponse := Engine.answers_recorded.1 ha _ List.mem_cons_self
  injection hresponse

/-- Every computation comes to its end where the records answer. -/
theorem outcome_recorded (x : Solving α) : ∃ r, x.outcome Engine.recorded () = some r := by
  cases h : x.outcome Engine.recorded () with
  | some r => exact ⟨r, rfl⟩
  | none =>
    obtain ⟨q, s, hsilence⟩ := Consult.silence_of_run h
    cases hsilence

/-- The last answer from the records is the one that they determine. -/
theorem response_of_getLast? {log : List Exchange} {q : Query} {r : Response q}
    (ha : Engine.recorded.Answers log) (h : log.getLast? = some ⟨q, r⟩) :
    r = .ok (Recorded.answer q) :=
  Engine.answers_recorded.1 ha ⟨q, r⟩ (List.mem_of_getLast? h)

/-- The records fail nobody. -/
theorem not_failed_recorded {log : List Exchange} {e : SolveError}
    (ha : Engine.recorded.Answers log) :
    ¬ Failed log e := by
  rintro ⟨q, f, hlast, -⟩
  have hresponse := response_of_getLast? ha hlast
  cases hresponse

end Solving

end Placement
