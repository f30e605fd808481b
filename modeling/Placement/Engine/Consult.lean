import Placement.Engine.Query

/-!
# Computations that consult the engine

`Consult α` is a computation that ends with an `α` after putting questions to the constraint engine.
It is the tree of all conversations it may have, so what it asks and when is part of the value. An
`Engine` answers by a state of its own and may fail to answer at all; `Consult.run` holds one
conversation.
-/

namespace Placement

/-- What comes back from a question: a failure or the answer. -/
abbrev Response (q : Query) := Except EngineError q.Answer

inductive Consult (α : Type) where
  | done (a : α)
  | ask (q : Query) (next : Response q → Consult α)

namespace Consult

variable {α β γ : Type}

protected def bind (x : Consult α) (f : α → Consult β) : Consult β :=
  match x with
  | done a => f a
  | ask q next => ask q fun r => (next r).bind f

instance : Monad Consult where
  pure := done
  bind := Consult.bind

@[simp] theorem pure_eq (a : α) : (pure a : Consult α) = done a := rfl

@[simp] theorem done_bind (a : α) (f : α → Consult β) : done a >>= f = f a := rfl

@[simp] theorem ask_bind (q : Query) (next : Response q → Consult α) (f : α → Consult β) :
    ask q next >>= f = ask q fun r => next r >>= f := rfl

theorem bind_done (x : Consult α) : x >>= done = x := by
  induction x with
  | done a => rfl
  | ask q next ih => simp [ih]

theorem bind_assoc' (x : Consult α) (f : α → Consult β) (g : β → Consult γ) :
    x >>= f >>= g = x >>= fun a => f a >>= g := by
  induction x with
  | done a => rfl
  | ask q next ih => simp [ih]

theorem map_eq (f : α → β) (x : Consult α) : f <$> x = x >>= fun a => done (f a) := rfl

instance : LawfulMonad Consult :=
  LawfulMonad.mk' Consult (fun x => bind_done x) (fun _ _ => rfl) (fun x f g => bind_assoc' x f g)

/-- One question. -/
def query (q : Query) : Consult (Response q) := ask q done

end Consult

/-! ### Computations that may fail -/

/-- A computation that consults the engine and may end with an error. -/
abbrev Solving (α : Type) := ExceptT SolveError Consult α

namespace Solving

variable {α : Type}

/-- One question; a failure of the engine ends the computation. -/
def ask (q : Query) : Solving q.Answer := do
  match ← ExceptT.lift (Consult.query q) with
  | .ok a => pure a
  | .error e => throw (.engine e)

/-- A computation that asks nothing. -/
def ofExcept (x : Except SolveError α) : Solving α := ExceptT.mk (pure x)

/-- What a computation ends with, its errors included. -/
def attempt (x : Solving α) : Solving (Except SolveError α) := ExceptT.lift x.run

end Solving

/-! ### Engines -/

/-- What an engine does with a question: it responds, or the call never returns. -/
inductive Reply (q : Query) where
  | response (r : Response q)
  | silence

structure Engine (σ : Type) where
  reply : (q : Query) → σ → Reply q × σ

/-- An engine whose answers depend on the question alone. -/
def Engine.ofResponses (respond : (q : Query) → Response q) : Engine Unit where
  reply q s := (.response (respond q), s)

/-- A conversation: the questions in order, the state in which the engine is left, and the result
unless the last call never returned. -/
structure Transcript (σ α : Type) where
  calls : List Query
  state : σ
  result : Option α

namespace Consult

variable {σ α : Type}

def run (engine : Engine σ) (x : Consult α) (s : σ) : Transcript σ α :=
  match x with
  | done a => ⟨[], s, some a⟩
  | ask q next =>
    match engine.reply q s with
    | (.silence, s) => ⟨[q], s, none⟩
    | (.response r, s) =>
      let t := (next r).run engine s
      { t with calls := q :: t.calls }

end Consult

end Placement
