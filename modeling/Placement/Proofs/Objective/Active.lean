import Placement.Proofs.Engine.Stateless
import Placement.Proofs.Objective.Frame
import Placement.Proofs.Objective.Pruned

/-!
# The active leaves of an objective

A leaf is active on a path that decides every demand it references. A score has a value only where
each active leaf has one, and otherwise it fails as the first of them that fails, from left to
right. Which leaves are active, and what they compute, depends on the decisions for the demands that
the objective references and on nothing else of a path; and a leaf that is active stays so, with its
value, where decisions for other demands join.
-/

namespace Placement

open Solving

variable {σ : Type} {engine : Engine σ} {s : σ} {a : Atlas} {p q : Path} {ps : Params}
  {l : Measure × Params} {ls ks : List (Measure × Params)} {e : SolveError}

/-! ## Leaves that are computed, and the first that is not -/

/-- The engine leads to a value for the leaf. -/
def Engine.Computes (engine : Engine σ) (s : σ) (a : Atlas) (p : Path) (l : Measure × Params) :
    Prop :=
  ∃ x, (l.1.value a p l.2).outcome engine s = some (.ok x)

/-- Of some leaves, `l` is the first without a value, and `e` is why. -/
structure Engine.FailsFirst (engine : Engine σ) (s : σ) (a : Atlas) (p : Path)
    (ls : List (Measure × Params)) (l : Measure × Params) (e : SolveError) : Prop where
  fails : (l.1.value a p l.2).outcome engine s = some (.error e)
  first : ∃ before after, ls = before ++ l :: after ∧ ∀ k ∈ before, engine.Computes s a p k

namespace Engine.FailsFirst

theorem mem (h : engine.FailsFirst s a p ls l e) : l ∈ ls := by
  obtain ⟨before, after, rfl, -⟩ := h.first
  exact List.mem_append_right _ List.mem_cons_self

theorem not_computes (h : engine.FailsFirst s a p ls l e) : ¬ engine.Computes s a p l := by
  rintro ⟨x, hx⟩
  cases h.fails.symm.trans hx

theorem append_right (h : engine.FailsFirst s a p ls l e) (ks : List (Measure × Params)) :
    engine.FailsFirst s a p (ls ++ ks) l e := by
  obtain ⟨before, after, rfl, hbefore⟩ := h.first
  exact ⟨h.fails, before, after ++ ks, by simp, hbefore⟩

theorem append_left (h : engine.FailsFirst s a p ls l e) (hks : ∀ k ∈ ks, engine.Computes s a p k) :
    engine.FailsFirst s a p (ks ++ ls) l e := by
  obtain ⟨before, after, rfl, hbefore⟩ := h.first
  refine ⟨h.fails, ks ++ before, after, (List.append_assoc _ _ _).symm, fun k hk => ?_⟩
  rcases List.mem_append.1 hk with hk | hk
  · exact hks k hk
  · exact hbefore k hk

end Engine.FailsFirst

/-! ## Terms -/

namespace Term

/-- The leaves that count on a path, from left to right. -/
def active (p : Path) (t : Term) : List (Measure × Params) :=
  (leaves t).filter fun l => l.2.isActive p

def activeAll (p : Path) (ts : List Term) : List (Measure × Params) :=
  (leavesAll ts).filter fun l => l.2.isActive p

theorem activeAll_cons (p : Path) (t : Term) (ts : List Term) :
    activeAll p (t :: ts) = active p t ++ activeAll p ts := by
  rw [activeAll, leavesAll, List.filter_append]
  rfl

theorem active_node (p : Path) (o : Operator) (ts : List Term) (scale : Scale) :
    active p (node o ts scale) = activeAll p ts := by
  rw [active, leaves]
  rfl

section

variable (he : engine.Stateless)
include he

mutual
theorem computes_of_evaluate :
    ∀ {t : Term} {x : Option Float}, (evaluate a p t).outcome engine s = some (.ok x) →
    ∀ l ∈ active p t, engine.Computes s a p l
  | leaf f ps scale, x, h, l, hl => by
    rw [active, leaves, List.mem_filter, List.mem_singleton] at hl
    obtain ⟨rfl, hactive⟩ := hl
    rw [evaluate, if_pos hactive] at h
    obtain ⟨v, hv, -⟩ := (outcome_bind_eq_ok he).1 h
    exact ⟨v, hv⟩
  | node o ts scale, x, h, l, hl => by
    rw [active_node] at hl
    rw [evaluate] at h
    obtain ⟨xs, hxs, -⟩ := (outcome_bind_eq_ok he).1 h
    exact computes_of_values hxs l hl

theorem computes_of_values :
    ∀ {ts : List Term} {xs : List Float}, (values a p ts).outcome engine s = some (.ok xs) →
    ∀ l ∈ activeAll p ts, engine.Computes s a p l
  | [], xs, _, l, hl => nomatch hl
  | t :: ts, xs, h, l, hl => by
    rw [values] at h
    obtain ⟨x, hx, h⟩ := (outcome_bind_eq_ok he).1 h
    obtain ⟨ys, hys, -⟩ := (outcome_bind_eq_ok he).1 h
    rw [activeAll_cons] at hl
    rcases List.mem_append.1 hl with hl | hl
    · exact computes_of_evaluate hx l hl
    · exact computes_of_values hys l hl
end

mutual
theorem failsFirst_of_evaluate : ∀ {t : Term}, (evaluate a p t).outcome engine s = some (.error e) →
    ∃ l, engine.FailsFirst s a p (active p t) l e
  | leaf f ps scale, h => by
    rw [evaluate] at h
    split at h
    · next hactive =>
      rcases (outcome_bind_eq_error he).1 h with hvalue | ⟨x, -, hpure⟩
      · refine ⟨(f, ps), hvalue, [], [], ?_, fun _ hk => nomatch hk⟩
        rw [active, leaves]
        exact List.filter_cons_of_pos hactive
      · rw [outcome_pure] at hpure
        cases hpure
    · rw [outcome_pure] at h
      cases h
  | node o ts scale, h => by
    rw [active_node]
    rw [evaluate] at h
    rcases (outcome_bind_eq_error he).1 h with hvalues | ⟨xs, -, hpure⟩
    · exact failsFirst_of_values hvalues
    · rw [outcome_pure] at hpure
      cases hpure

theorem failsFirst_of_values :
    ∀ {ts : List Term}, (values a p ts).outcome engine s = some (.error e) →
    ∃ l, engine.FailsFirst s a p (activeAll p ts) l e
  | [], h => by
    rw [values, outcome_pure] at h
    cases h
  | t :: ts, h => by
    rw [values] at h
    rw [activeAll_cons]
    rcases (outcome_bind_eq_error he).1 h with ht | ⟨x, hx, h⟩
    · obtain ⟨l, hl⟩ := failsFirst_of_evaluate ht
      exact ⟨l, hl.append_right _⟩
    · rcases (outcome_bind_eq_error he).1 h with hts | ⟨ys, -, hpure⟩
      · obtain ⟨l, hl⟩ := failsFirst_of_values hts
        exact ⟨l, hl.append_left (computes_of_evaluate he hx)⟩
      · rw [outcome_pure] at hpure
        cases hpure
end

end

end Term

/-! ## Decisions that join -/

/-- What is decided for an active leaf stays decided for it. -/
theorem Path.Keeps.agreeOn (h : p.Keeps q) (hactive : ps.isActive p = true) :
    Path.AgreeOn ps.referenced p q := by
  intro d hd
  obtain ⟨x, hx⟩ := Option.isSome_iff_exists.1 (List.all_eq_true.1 hactive d hd)
  rw [hx, h d x hx]

theorem Path.Keeps.isActive (h : p.Keeps q) (hactive : ps.isActive p = true) :
    ps.isActive q = true := by
  rwa [← Params.isActive_congr (h.agreeOn hactive)]

theorem Path.Keeps.value_eq (h : p.Keeps q) (f : Measure) (a : Atlas)
    (hactive : ps.isActive p = true) :
    f.value a q ps = f.value a p ps :=
  (Measure.value_congr (h.agreeOn hactive)).symm

/-! ## Objectives -/

namespace Objective

variable {o : Objective}

/-- The leaves of an objective that count on a path, from left to right. -/
def active (o : Objective) (p : Path) : List (Measure × Params) := Term.activeAll p o.operands

theorem mem_active : l ∈ o.active p ↔ l ∈ Term.leavesAll o.operands ∧ l.2.isActive p = true :=
  List.mem_filter

theorem computes_of_evaluate (he : engine.Stateless) {x : Float}
    (h : (o.evaluate a p).outcome engine s = some (.ok x)) :
    ∀ l ∈ o.active p, engine.Computes s a p l := by
  unfold evaluate at h
  obtain ⟨xs, hxs, -⟩ := (outcome_bind_eq_ok he).1 h
  exact Term.computes_of_values he hxs

theorem failsFirst_of_evaluate (he : engine.Stateless)
    (h : (o.evaluate a p).outcome engine s = some (.error e)) :
    ∃ l, engine.FailsFirst s a p (o.active p) l e := by
  unfold evaluate at h
  rcases (outcome_bind_eq_error he).1 h with hvalues | ⟨xs, -, hpure⟩
  · exact Term.failsFirst_of_values he hvalues
  · rw [outcome_pure] at hpure
    cases hpure

/-- On paths whose decisions, committed or assumed, are the same for the demands that the leaves of
an objective reference, the same leaves are active and compute the same, and the objective poses the
same questions and ends with the same value or the same error. -/
theorem evaluate_of_same_decisions (o : Objective) (a : Atlas)
    (h : ∀ d ∈ o.referenced, p.decisions.lookup d = q.decisions.lookup d) (engine : Engine σ)
    (s : σ) :
    (∀ d, d ∈ o.referenced ↔ ∃ l ∈ Term.leavesAll o.operands, d ∈ l.2.referenced) ∧
    o.active p = o.active q ∧
    (∀ l ∈ Term.leavesAll o.operands, (l.1.value a p l.2).outcome engine s =
      (l.1.value a q l.2).outcome engine s) ∧
    (o.evaluate a p).outcome engine s = (o.evaluate a q).outcome engine s ∧
    (o.evaluate a p).run.exchanges engine s = (o.evaluate a q).run.exchanges engine s := by
  have hreferenced : ∀ d, d ∈ o.referenced ↔ ∃ l ∈ Term.leavesAll o.operands, d ∈ l.2.referenced :=
    fun d => Term.mem_referencedAll
  have hagree : Path.AgreeOn o.referenced p q := h
  have hleaf : ∀ l ∈ Term.leavesAll o.operands, Path.AgreeOn l.2.referenced p q :=
    fun l hl d hd => hagree d ((hreferenced d).2 ⟨l, hl, hd⟩)
  refine ⟨hreferenced, List.filter_congr fun l hl => Params.isActive_congr (hleaf l hl),
    fun l hl => ?_, ?_, ?_⟩
  · rw [Measure.value_congr (hleaf l hl)]
  · rw [evaluate_congr hagree]
  · rw [evaluate_congr hagree]

theorem evaluate_of_same_decisions_assumed :
    let p : Path := .holding [("a", .eastern "a2" 1.0)]
    let q : Path :=
      { Path.assuming (.holding [("c", .eastern "c1" 5.0)]) "a" (.eastern "a2" 1.0) with
        current := some "c", cumulatedValue := 9.0, totalCost := 7.0 }
    (∀ d ∈ (partlyActive "latitude").referenced, p.decisions.lookup d = q.decisions.lookup d) ∧
      (partlyActive "latitude").active q = [(.cost, { demand := some "a" }),
        (.field, { demand := some "a", key := some "latitude" })] ∧
      ((partlyActive "latitude").evaluate {} q).outcome Engine.recorded () =
        ((partlyActive "latitude").evaluate {} p).outcome Engine.recorded () := by
  intro p q
  have hsame :
      ∀ d ∈ (partlyActive "latitude").referenced, p.decisions.lookup d = q.decisions.lookup d :=
    List.forall_mem_cons.2 ⟨rfl,
      List.forall_mem_cons.2 ⟨rfl, List.forall_mem_cons.2 ⟨rfl, fun _ h => nomatch h⟩⟩⟩
  obtain ⟨-, hactive, -, hvalue, -⟩ :=
    evaluate_of_same_decisions (partlyActive "latitude") {} hsame Engine.recorded ()
  exact ⟨hsame, hactive.symm.trans rfl, hvalue.symm⟩

end Objective

end Placement
