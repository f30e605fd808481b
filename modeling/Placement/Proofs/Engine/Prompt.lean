import Placement.Proofs.Engine.Calls
import Placement.Proofs.Engine.Conversation

/-!
# Failures of the engine

A computation is prompt if the failure of a call ends it there and then, with a result that the
failure determines. In its conversation with whatever engine only the last call can have failed.
Binds keep a computation prompt where the second part passes on what the first one makes of a
failure.

Constraints and objectives put questions one after the other and pass on what any of them fails
with. `BuiltFrom P` says so of a computation, with `P` for its questions; that it fails fast and
that it asks nothing else are two consequences.
-/

namespace Placement

/-- The failure that came back, if it was one. -/
def Exchange.failure? : Exchange → Option EngineError
  | ⟨_, .ok _⟩ => none
  | ⟨_, .error f⟩ => some f

/-- The failure that a conversation stops with. -/
def lastFailure? (log : List Exchange) : Option EngineError := log.getLast?.bind Exchange.failure?

namespace Consult

variable {σ α β : Type} {g : EngineError → α} {x : Consult α}

/-- The failure of a call ends the computation with what `g` makes of it. -/
inductive Prompt (g : EngineError → α) : Consult α → Prop where
  | done (a : α) : Prompt g (done a)
  | ask {q : Query} {next : Response q → Consult α} :
      (∀ f, next (.error f) = Consult.done (g f)) → (∀ a, Prompt g (next (.ok a))) →
        Prompt g (ask q next)

theorem Prompt.bind {h : EngineError → β} {f : α → Consult β} (hx : Prompt g x)
    (hf : ∀ a, Prompt h (f a)) (hg : ∀ e, f (g e) = Consult.done (h e)) : Prompt h (x >>= f) := by
  induction hx with
  | done a => exact hf a
  | @ask q next hfail _ ih =>
    rw [ask_bind]
    refine .ask (fun e => ?_) ih
    rw [hfail, done_bind, hg]

/-- Of the calls of a conversation only the last can have failed, and after a failure nothing more
is asked. -/
structure FailsLast (x : Consult α) (engine : Engine σ) (s : σ) : Prop where
  answered : ∀ e ∈ (x.exchanges engine s).dropLast, e.failure? = none
  last : ∀ f, lastFailure? (x.exchanges engine s) = some f →
    (x.run engine s).calls = (x.exchanges engine s).map Exchange.query

/-- In a conversation that has come to its end each call is an exchange. -/
theorem calls_of_result {engine : Engine σ} {a : α} :
    ∀ {s : σ}, (x.run engine s).result = some a →
      (x.run engine s).calls = (x.exchanges engine s).map Exchange.query := by
  induction x with
  | done b => intro s _; rfl
  | ask q next ih =>
    intro s h
    rcases hr : engine.reply q s with ⟨r | _, s'⟩
    · rw [result_ask_response hr] at h
      rw [exchanges_ask_response hr, run, hr, List.map_cons]
      exact congrArg (q :: ·) (ih r h)
    · rw [result_ask_silence hr] at h
      cases h

/-- Of the exchanges of a prompt computation all but the last are answers, and with a failure it
ends. -/
theorem Prompt.exchanges (hx : Prompt g x) (engine : Engine σ) : ∀ s : σ,
    (∀ e ∈ (x.exchanges engine s).dropLast, e.failure? = none) ∧
      ∀ f, lastFailure? (x.exchanges engine s) = some f → (x.run engine s).result = some (g f) := by
  induction hx with
  | done a =>
    refine fun s => ⟨List.forall_mem_nil _, fun f h => ?_⟩
    cases h
  | @ask q next hfail _ ih =>
    intro s
    rcases hr : engine.reply q s with ⟨r | _, s'⟩
    · rw [exchanges_ask_response hr, result_ask_response hr]
      cases r with
      | error f =>
        rw [hfail]
        refine ⟨List.forall_mem_nil _, fun f' h => ?_⟩
        cases h
        rfl
      | ok a =>
        obtain ⟨hanswered, hresult⟩ := ih a s'
        cases hrest : (next (.ok a)).exchanges engine s' with
        | nil =>
          refine ⟨List.forall_mem_nil _, fun f h => ?_⟩
          cases h
        | cons e rest =>
          rw [hrest] at hanswered hresult
          rw [List.dropLast_cons_cons, List.forall_mem_cons]
          exact ⟨⟨rfl, hanswered⟩, hresult⟩
    · have hnone : (Consult.ask q next).exchanges engine s = [] := by rw [Consult.exchanges, hr]
      rw [hnone]
      refine ⟨List.forall_mem_nil _, fun f h => ?_⟩
      cases h

theorem Prompt.failsLast (hx : Prompt g x) (engine : Engine σ) (s : σ) : FailsLast x engine s := by
  obtain ⟨hanswered, hresult⟩ := hx.exchanges engine s
  exact ⟨hanswered, fun f h => calls_of_result (hresult f h)⟩

end Consult

/-! ## Computations that may fail -/

namespace Solving

variable {α β : Type}

/-- The failure of a call is the error with which the computation ends at once. -/
def FailsFast (x : Solving α) : Prop := x.run.Prompt fun f => .error (.engine f)

theorem failsFast_pure (a : α) : FailsFast (pure a) := .done _

theorem failsFast_throw (e : SolveError) : FailsFast (throw e : Solving α) := .done _

theorem failsFast_ofExcept (x : Except SolveError α) : FailsFast (ofExcept x) := .done _

theorem failsFast_ask (q : Query) : FailsFast (ask q) := .ask (fun _ => rfl) fun _ => .done _

theorem FailsFast.bind {x : Solving α} {f : α → Solving β} (hx : FailsFast x)
    (hf : ∀ a, FailsFast (f a)) :
    FailsFast (x >>= f) := by
  refine Consult.Prompt.bind hx (fun r => ?_) fun e => rfl
  cases r with
  | ok a => exact hf a
  | error e => exact .done _

/-- What follows an attempt decides what becomes of a failure in it. -/
theorem FailsFast.attempt_bind {x : Solving α} {f : Except SolveError α → Solving β}
    {g : EngineError → Except SolveError β} (hx : FailsFast x) (hf : ∀ r, (f r).run.Prompt g)
    (hg : ∀ e, (f (.error (.engine e))).run = .done (g e)) : (attempt x >>= f).run.Prompt g := by
  rw [run_attempt_bind]
  exact Consult.Prompt.bind hx hf hg

end Solving

/-! ## What a computation is built from -/

namespace Solving

/-- The computation is a composition of questions that satisfy `P`, of values and of errors. -/
inductive BuiltFrom (P : Query → Prop) : {α : Type} → Solving α → Prop where
  | pure {α : Type} (a : α) : BuiltFrom P (pure a)
  | throw {α : Type} (e : SolveError) : BuiltFrom P (throw e : Solving α)
  | ask {q : Query} : P q → BuiltFrom P (ask q)
  | bind {α β : Type} {x : Solving α} {f : α → Solving β} :
      BuiltFrom P x → (∀ a, BuiltFrom P (f a)) → BuiltFrom P (x >>= f)

namespace BuiltFrom

variable {α : Type} {P Q : Query → Prop} {x : Solving α}

theorem ofExcept (x : Except SolveError α) : BuiltFrom P (ofExcept x) := by
  cases x with
  | ok a => exact .pure a
  | error e => exact .throw e

theorem mono (hx : BuiltFrom P x) (h : ∀ q, P q → Q q) : BuiltFrom Q x := by
  induction hx with
  | pure a => exact .pure a
  | throw e => exact .throw e
  | ask hq => exact .ask (h _ hq)
  | bind _ _ ihx ihf => exact .bind ihx ihf

theorem failsFast (hx : BuiltFrom P x) : FailsFast x := by
  induction hx with
  | pure a => exact failsFast_pure a
  | throw e => exact failsFast_throw e
  | ask _ => exact failsFast_ask _
  | bind _ _ ihx ihf => exact ihx.bind ihf

theorem asksOnly (hx : BuiltFrom P x) : AsksOnly P x := by
  induction hx with
  | pure a => exact asksOnly_pure a
  | throw e => exact asksOnly_throw e
  | ask hq => exact asksOnly_ask hq
  | bind _ _ ihx ihf => exact ihx.bind ihf

end BuiltFrom

end Solving

end Placement
