import Placement.Proofs.Engine.Conversation

/-!
# Calls

The calls of a computation are its questions to an engine in their order, the one included that
never returns. A composition calls what its first part calls and then, if that has come to a value,
what its second part calls in the state in which the engine was left. `x.AsksOnly P` says that all
questions of `x` satisfy `P`, whatever the answers, so that none of its calls to any engine can be
another one.
-/

namespace Placement

namespace Consult

variable {σ α β : Type} {engine : Engine σ} {P : Query → Prop} {x : Consult α} {f : α → Consult β}

/-! ## Calls of a composition -/

section
variable {q : Query} {next : Response q → Consult α} {r : Response q} {s s' : σ}

theorem calls_ask_silence (h : engine.reply q s = (.silence, s')) :
    ((ask q next).run engine s).calls = [q] := by
  unfold run
  rw [h]

theorem calls_ask_response (h : engine.reply q s = (.response r, s')) :
    ((ask q next).run engine s).calls = q :: ((next r).run engine s').calls := by
  rw [run, h]

end

theorem calls_bind : ∀ {s : σ}, ((x >>= f).run engine s).calls = (x.run engine s).calls ++
    (x.run engine s).result.elim [] fun a => ((f a).run engine (x.run engine s).state).calls := by
  induction x with
  | done a => intro s; rfl
  | ask q next ih =>
    intro s
    rw [ask_bind]
    rcases hr : engine.reply q s with ⟨r | _, s'⟩
    · rw [calls_ask_response hr, calls_ask_response hr, result_ask_response hr,
        state_ask_response hr, ih r, List.cons_append]
    · rw [calls_ask_silence hr, calls_ask_silence hr, result_ask_silence hr]
      rfl

/-! ## Questions whatever the answers -/

/-- Whatever it is answered, the computation asks nothing but what satisfies `P`. -/
inductive AsksOnly (P : Query → Prop) : Consult α → Prop where
  | done (a : α) : AsksOnly P (done a)
  | ask {q : Query} {next : Response q → Consult α} :
      P q → (∀ r, AsksOnly P (next r)) → AsksOnly P (ask q next)

theorem AsksOnly.bind (hx : AsksOnly P x) (hf : ∀ a, AsksOnly P (f a)) : AsksOnly P (x >>= f) := by
  induction hx with
  | done a => exact hf a
  | ask hq _ ih => exact .ask hq ih

theorem AsksOnly.calls (hx : AsksOnly P x) : ∀ s : σ, ∀ q ∈ (x.run engine s).calls, P q := by
  induction hx with
  | done a => exact fun s q hq => nomatch hq
  | @ask q next hq _ ih =>
    intro s q' hmem
    rcases hr : engine.reply q s with ⟨r | _, s'⟩
    · rw [calls_ask_response hr] at hmem
      rcases List.mem_cons.1 hmem with rfl | hmem
      · exact hq
      · exact ih r s' q' hmem
    · rw [calls_ask_silence hr] at hmem
      rwa [List.mem_singleton.1 hmem]

end Consult

/-! ## Computations that may fail -/

namespace Solving

variable {σ α β : Type} {engine : Engine σ} {s : σ} {P : Query → Prop} {x : Solving α}
  {f : α → Solving β} {a : α}

/-- The questions in their order, the one included that is never answered. -/
def calls (x : Solving α) (engine : Engine σ) (s : σ) : List Query := (x.run.run engine s).calls

/-- The state in which the engine is left. -/
def left (x : Solving α) (engine : Engine σ) (s : σ) : σ := (x.run.run engine s).state

theorem outcome_bind_of_ok (h : x.outcome engine s = some (.ok a)) :
    (x >>= f).outcome engine s = (f a).outcome engine (x.left engine s) := by
  rw [outcome_bind_run, h]
  rfl

theorem calls_bind_of_ok (h : x.outcome engine s = some (.ok a)) :
    (x >>= f).calls engine s = x.calls engine s ++ (f a).calls engine (x.left engine s) := by
  have hresult : (x.run.run engine s).result = some (.ok a) := h
  unfold calls left
  rw [run_bind, Consult.calls_bind, hresult]
  rfl

/-- What has failed, or waits for a call, calls nothing more. -/
theorem mem_calls_bind {q : Query} : q ∈ (x >>= f).calls engine s ↔ q ∈ x.calls engine s ∨
    ∃ a, x.outcome engine s = some (.ok a) ∧ q ∈ (f a).calls engine (x.left engine s) := by
  unfold calls outcome left
  rw [run_bind, Consult.calls_bind, List.mem_append]
  refine or_congr_right ?_
  rcases (x.run.run engine s).result with _ | e | a
  · simp
  · refine iff_of_false List.not_mem_nil ?_
    rintro ⟨a, h, -⟩
    cases h
  · constructor
    · exact fun hq => ⟨a, rfl, hq⟩
    · rintro ⟨a, h, hq⟩
      cases h
      exact hq

/-- Whatever it is answered, the computation asks nothing but what satisfies `P`. -/
def AsksOnly (P : Query → Prop) (x : Solving α) : Prop := x.run.AsksOnly P

theorem asksOnly_pure (a : α) : AsksOnly P (pure a) := .done _

theorem asksOnly_throw (e : SolveError) : AsksOnly P (throw e : Solving α) := .done _

theorem asksOnly_ofExcept (x : Except SolveError α) : AsksOnly P (ofExcept x) := .done _

theorem asksOnly_ask {q : Query} (h : P q) : AsksOnly P (ask q) := by
  refine .ask h fun r => ?_
  cases r with
  | ok a => exact .done _
  | error e => exact .done _

theorem AsksOnly.bind (hx : AsksOnly P x) (hf : ∀ a, AsksOnly P (f a)) : AsksOnly P (x >>= f) := by
  refine Consult.AsksOnly.bind hx fun r => ?_
  cases r with
  | ok a => exact hf a
  | error e => exact .done _

theorem AsksOnly.mem_calls (hx : AsksOnly P x) {q : Query} (hq : q ∈ x.calls engine s) : P q :=
  Consult.AsksOnly.calls hx s q hq

/-- The first call is the question that comes first. -/
theorem mem_calls_ask {q : Query} : q ∈ (ask q).calls engine s := by
  obtain ⟨next, hrun⟩ : ∃ next, (ask q).run = Consult.ask q next := ⟨_, rfl⟩
  unfold calls
  rw [hrun]
  rcases hr : engine.reply q s with ⟨r | _, s'⟩
  · rw [Consult.calls_ask_response hr]
    exact List.mem_cons_self
  · rw [Consult.calls_ask_silence hr]
    exact List.mem_cons_self

/-! ## A single question -/

section
variable (q : Query) (g : q.Answer → β)

/-- What comes of the response to a question whose answer is put to use without asking more. -/
def conclude : Response q → Except SolveError β
  | .error e => .error (.engine e)
  | .ok a => .ok (g a)

theorem run_ask_bind_pure :
    (ask q >>= fun a => pure (g a)).run = Consult.ask q fun r => .done (conclude q g r) := by
  refine congrArg (Consult.ask q) (funext fun r => ?_)
  cases r with
  | error e => rfl
  | ok a => rfl

theorem calls_ask_bind_pure : (ask q >>= fun a => pure (g a)).calls engine s = [q] := by
  unfold calls
  rw [run_ask_bind_pure]
  rcases hr : engine.reply q s with ⟨r | _, s'⟩
  · exact Consult.calls_ask_response hr
  · exact Consult.calls_ask_silence hr

theorem outcome_ask_bind_pure : (ask q >>= fun a => pure (g a)).outcome engine s =
    match (engine.reply q s).1 with
    | .silence => none
    | .response r => some (conclude q g r) := by
  unfold outcome
  rw [run_ask_bind_pure]
  rcases hr : engine.reply q s with ⟨r | _, s'⟩
  · exact Consult.result_ask_response hr
  · exact Consult.result_ask_silence hr

end

end Solving

end Placement
