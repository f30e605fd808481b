import Mathlib.Tactic.Choose
import Placement.Proofs.Engine.Stateless
import Placement.Proofs.Objective.Frame
import Placement.Proofs.Problem

/-!
# Scores of pruned trees

Evaluation decides on the way which leaves of an objective count. The same comes of removing the
inactive leaves and the nodes left without operands first, and of evaluating what remains from the
leaves up, where every leaf counts and every node has an operand to reduce. The two pose the same
questions in the same order.
-/

namespace Placement

open Solving

variable {σ : Type} {engine : Engine σ} {s : σ} {a : Atlas} {p : Path} {e : SolveError}

namespace Term

/-! ## Pruning -/

mutual
/-- The term without the leaves that reference a demand without a decision, and without the nodes
that are left without operands. -/
def pruned (p : Path) : Term → Option Term
  | leaf f ps scale =>
    if ∀ d ∈ ps.referenced, d ∈ p.decisions.map Prod.fst then some (leaf f ps scale) else none
  | node o ts scale =>
    match prunedAll p ts with
    | [] => none
    | t :: ts => some (node o (t :: ts) scale)

def prunedAll (p : Path) : List Term → List Term
  | [] => []
  | t :: ts => (pruned p t).toList ++ prunedAll p ts
end

/-- Every node of the term has an operand. -/
inductive Full : Term → Prop where
  | leaf (f : Measure) (ps : Params) (scale : Scale) : Full (leaf f ps scale)
  | node (o : Operator) {ts : List Term} (scale : Scale) :
      ts ≠ [] → (∀ t ∈ ts, Full t) → Full (node o ts scale)

mutual
theorem full_of_pruned : ∀ {t u : Term}, pruned p t = some u → Full u
  | leaf f ps scale, u, h => by
    rw [pruned] at h
    split at h
    · cases h
      exact .leaf f ps scale
    · cases h
  | node o ts scale, u, h => by
    rw [pruned] at h
    have hfull : ∀ u ∈ prunedAll p ts, Full u := fun u => full_of_mem_prunedAll
    cases hts : prunedAll p ts with
    | nil =>
      rw [hts] at h
      cases h
    | cons t us =>
      rw [hts] at h hfull
      cases h
      exact .node o scale (List.cons_ne_nil t us) hfull

theorem full_of_mem_prunedAll : ∀ {ts : List Term} {u : Term}, u ∈ prunedAll p ts → Full u
  | [], u, h => by
    rw [prunedAll] at h
    cases h
  | t :: ts, u, h => by
    rw [prunedAll, List.mem_append] at h
    rcases h with h | h
    · exact full_of_pruned (Option.mem_toList.1 h)
    · exact full_of_mem_prunedAll h
end

/-! ## Evaluation from the leaves up -/

mutual
/-- The value of a term from the values of its leaves: an operation reduces the values of its
operands, and every operand is normalized and then weighted. -/
def valueOf (v : Measure × Params → Float) : Term → Float
  | leaf f ps scale => scale.apply (v (f, ps))
  | node o ts scale => scale.apply (o.reduce (valuesOf v ts))

def valuesOf (v : Measure × Params → Float) : List Term → List Float
  | [] => []
  | t :: ts => valueOf v t :: valuesOf v ts
end

mutual
/-- The value of a term of which every leaf counts, the leaves computed from left to right. -/
def whole (a : Atlas) (p : Path) : Term → Solving Float
  | leaf f ps scale => do
    let x ← f.value a p ps
    pure (scale.apply x)
  | node o ts scale => do
    let xs ← wholes a p ts
    pure (scale.apply (o.reduce xs))

def wholes (a : Atlas) (p : Path) : List Term → Solving (List Float)
  | [] => pure []
  | t :: ts => do
    let x ← whole a p t
    let xs ← wholes a p ts
    pure (x :: xs)
end

/-! ## Evaluation is evaluation of the pruned term -/

theorem isActive_iff {ps : Params} :
    ps.isActive p = true ↔ ∀ d ∈ ps.referenced, d ∈ p.decisions.map Prod.fst := by
  unfold Params.isActive
  rw [List.all_eq_true]
  exact forall₂_congr fun d _ => Path.decision?_isSome

mutual
theorem evaluate_eq_whole : ∀ {t : Term}, evaluate a p t =
    match pruned p t with
    | none => pure none
    | some u => do
      let x ← whole a p u
      pure (some x)
  | leaf f ps scale => by
    rw [evaluate, pruned]
    by_cases h : ps.isActive p = true
    · rw [if_pos h, if_pos (isActive_iff.1 h)]
      simp only [whole, bind_assoc, pure_bind]
    · rw [if_neg h, if_neg (fun hall => h (isActive_iff.2 hall))]
  | node o ts scale => by
    rw [evaluate, pruned, values_eq_wholes]
    cases prunedAll p ts with
    | nil =>
      simp only [wholes, pure_bind]
      rfl
    | cons t us =>
      simp only [whole, wholes, bind_assoc, pure_bind]
      rfl

theorem values_eq_wholes : ∀ {ts : List Term}, values a p ts = wholes a p (prunedAll p ts)
  | [] => by
    rw [values, prunedAll, wholes]
  | t :: ts => by
    rw [values, prunedAll, evaluate_eq_whole, values_eq_wholes]
    cases pruned p t with
    | none =>
      simp only [pure_bind, Option.toList_none, List.nil_append, bind_pure]
    | some u =>
      simp only [wholes, bind_assoc, pure_bind, Option.toList_some, List.cons_append,
        List.nil_append]
end

/-! ## Against an engine without memory -/

section

variable (he : engine.Stateless)
include he

mutual
theorem outcome_whole_ok {v : Measure × Params → Float} : ∀ {t : Term},
    (∀ l ∈ leaves t, (l.1.value a p l.2).outcome engine s = some (.ok (v l))) →
      (whole a p t).outcome engine s = some (.ok (valueOf v t))
  | leaf f ps scale, h => by
    have hvalue := h (f, ps) (by simp [leaves])
    rw [whole, outcome_bind_ok he hvalue, outcome_pure, valueOf]
  | node o ts scale, h => by
    rw [leaves] at h
    rw [whole, outcome_bind_ok he (outcome_wholes_ok h), outcome_pure, valueOf]

theorem outcome_wholes_ok {v : Measure × Params → Float} : ∀ {ts : List Term},
    (∀ l ∈ leavesAll ts, (l.1.value a p l.2).outcome engine s = some (.ok (v l))) →
      (wholes a p ts).outcome engine s = some (.ok (valuesOf v ts))
  | [], _ => by
    rw [wholes, outcome_pure, valuesOf]
  | t :: ts, h => by
    rw [leavesAll] at h
    obtain ⟨ht, hts⟩ := List.forall_mem_append.1 h
    rw [wholes, outcome_bind_ok he (outcome_whole_ok ht),
      outcome_bind_ok he (outcome_wholes_ok hts), outcome_pure, valuesOf]
end

variable {l : Measure × Params}

mutual
/-- The first leaf that cannot be computed fails the term, as it fails itself. -/
theorem outcome_whole_error (hl : (l.1.value a p l.2).outcome engine s = some (.error e)) :
    ∀ {t : Term} {before after : List (Measure × Params)}, leaves t = before ++ l :: after →
      (∀ k ∈ before, ∃ x, (k.1.value a p k.2).outcome engine s = some (.ok x)) →
        (whole a p t).outcome engine s = some (.error e)
  | leaf f ps scale, before, after, hsplit, _ => by
    rw [leaves] at hsplit
    obtain ⟨rfl, hlast⟩ : before = [] ∧ l :: after = [(f, ps)] := by
      rcases List.singleton_eq_append_iff.1 hsplit with ⟨hbefore, hlast⟩ | ⟨-, hnil⟩
      · exact ⟨hbefore, hlast⟩
      · cases hnil
    cases hlast
    rw [whole, outcome_bind_error he hl]
  | node o ts scale, before, after, hsplit, hbefore => by
    rw [leaves] at hsplit
    rw [whole, outcome_bind_error he (outcome_wholes_error hl hsplit hbefore)]

theorem outcome_wholes_error (hl : (l.1.value a p l.2).outcome engine s = some (.error e)) :
    ∀ {ts : List Term} {before after : List (Measure × Params)},
      leavesAll ts = before ++ l :: after →
      (∀ k ∈ before, ∃ x, (k.1.value a p k.2).outcome engine s = some (.ok x)) →
        (wholes a p ts).outcome engine s = some (.error e)
  | [], before, after, hsplit, _ => by
    rw [leavesAll] at hsplit
    exact absurd hsplit.symm (List.append_ne_nil_of_right_ne_nil _ (List.cons_ne_nil _ _))
  | t :: ts, before, after, hsplit, hbefore => by
    rw [leavesAll] at hsplit
    -- The leaf is one of the first term, or all leaves of the first term stand before it.
    have hwhere : (∃ rest, leaves t = before ++ l :: rest) ∨
        ∃ mid, before = leaves t ++ mid ∧ leavesAll ts = mid ++ l :: after := by
      rcases List.append_eq_append_iff.1 hsplit with ⟨mid, hmid, hts⟩ | ⟨mid, ht, hmid⟩
      · exact .inr ⟨mid, hmid, hts⟩
      · cases mid with
        | nil =>
          rw [List.append_nil] at ht
          rw [List.nil_append] at hmid
          exact .inr ⟨[], by rw [List.append_nil, ht], hmid.symm⟩
        | cons k mid =>
          cases hmid
          exact .inl ⟨mid, ht⟩
    rcases hwhere with ⟨rest, ht⟩ | ⟨mid, rfl, hts⟩
    · rw [wholes, outcome_bind_error he (outcome_whole_error hl ht hbefore)]
    · obtain ⟨ht, hmid⟩ := List.forall_mem_append.1 hbefore
      choose! v hv using ht
      rw [wholes, outcome_bind_ok he (outcome_whole_ok he hv),
        outcome_bind_error he (outcome_wholes_error hl hts hmid)]
end

end

end Term

namespace Objective

variable {o : Objective}

theorem evaluate_of_prunedAll_nil (h : Term.prunedAll p o.operands = []) :
    o.evaluate a p = pure 0.0 := by
  unfold evaluate
  rw [Term.values_eq_wholes, h, Term.wholes, pure_bind]
  rfl

theorem evaluate_of_prunedAll_ne_nil (h : Term.prunedAll p o.operands ≠ []) :
    o.evaluate a p = Term.wholes a p (Term.prunedAll p o.operands) >>=
    fun xs => pure (o.operator.reduce xs) := by
  unfold evaluate
  rw [Term.values_eq_wholes]
  cases hts : Term.prunedAll p o.operands with
  | nil => exact absurd hts h
  | cons t ts =>
    simp only [Term.wholes, bind_assoc, pure_bind]
    rfl

/-- An objective is evaluated as its pruned tree is. Where nothing remains of it, the score is zero
and the engine is not consulted. Of what remains, every node has an operand; its value is that of
its leaves, reduced, normalized and weighted from the leaves up, or the error of the first leaf,
from left to right, that cannot be computed. What was removed has no effect: trees of which the same
remains are evaluated alike, question by question. -/
theorem evaluate_pruned (o : Objective) (a : Atlas) (p : Path) (he : engine.Stateless) (s : σ) :
    let remaining := Term.prunedAll p o.operands
    (remaining = [] → o.evaluate a p = pure 0.0) ∧
    (remaining ≠ [] →
      (∀ v : Measure × Params → Float,
        (∀ l ∈ Term.leavesAll remaining, (l.1.value a p l.2).outcome engine s = some (.ok (v l))) →
          (o.evaluate a p).outcome engine s =
            some (.ok (o.operator.reduce (Term.valuesOf v remaining)))) ∧
      ∀ before l after e, Term.leavesAll remaining = before ++ l :: after →
        (∀ k ∈ before, ∃ x, (k.1.value a p k.2).outcome engine s = some (.ok x)) →
          (l.1.value a p l.2).outcome engine s = some (.error e) →
            (o.evaluate a p).outcome engine s = some (.error e)) ∧
    (∀ t ∈ remaining, t.Full) ∧
    ∀ o' : Objective, o'.operator = o.operator → Term.prunedAll p o'.operands = remaining →
      o'.evaluate a p = o.evaluate a p := by
  intro remaining
  refine ⟨evaluate_of_prunedAll_nil,
    fun hne => ⟨fun v hv => ?_, fun before l after e hsplit hbefore hl => ?_⟩,
    fun t => Term.full_of_mem_prunedAll, fun o' ho hts => ?_⟩
  · rw [evaluate_of_prunedAll_ne_nil hne, outcome_bind_ok he (Term.outcome_wholes_ok he hv),
      outcome_pure]
  · rw [evaluate_of_prunedAll_ne_nil hne,
      outcome_bind_error he (Term.outcome_wholes_error he hl hsplit hbefore)]
  · unfold evaluate
    rw [Term.values_eq_wholes, Term.values_eq_wholes, hts, ho]

/-- Twice the cost of the first site, seven times what the second one costs, and a normalized field
of the first. -/
def partlyActive (key : String) : Objective where
  goal := .minimize
  operator := .sum
  operands :=
    [.leaf .cost { demand := some "a" } { weight := some 2.0 },
      .node .max [.leaf .cost { demand := some "b" } {}] { weight := some 7.0 },
      .leaf .field { demand := some "a", key := some key } { normalization := some ⟨0.0, 80.0⟩ }]

theorem evaluate_pruned_firstSite :
    let path : Path := .holding [("a", .eastern "a2" 1.0)]
    (∃ x, ((partlyActive "latitude").evaluate {} path).outcome Engine.recorded () = some (.ok x) ∧
      (x == 2.5) = true) ∧
      ((partlyActive "speed").evaluate {} path).outcome Engine.recorded () =
        some (.error (.record (.missingAttribute "a2" "speed"))) := by
  intro path
  obtain ⟨-, hvalue, -⟩ :=
    evaluate_pruned (partlyActive "latitude") {} path Engine.stateless_recorded ()
  obtain ⟨-, herror, -⟩ :=
    evaluate_pruned (partlyActive "speed") {} path Engine.stateless_recorded ()
  constructor
  · refine ⟨_, (hvalue (List.cons_ne_nil _ _)).1
      (fun l => if l.1 = .cost then 1.0 else 40.0) ?_, by decide +kernel⟩
    exact List.forall_mem_cons.2 ⟨rfl, List.forall_mem_cons.2 ⟨rfl, fun _ h => nomatch h⟩⟩
  · refine (herror (List.cons_ne_nil _ _)).2 [_] _ [] _ rfl ?_ rfl
    exact List.forall_mem_cons.2 ⟨⟨_, rfl⟩, fun _ h => nomatch h⟩

end Objective

end Placement
