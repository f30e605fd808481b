import Placement.Problem
import Placement.Proofs.Objective.Leaves
import Placement.Proofs.Path

/-!
# What a score reads

A term reads the decisions for the demands that its leaves reference and nothing else of a path.
Paths that agree on them pose the same questions in the same order and have the same value, so the
score of a path on which a candidate is assumed is the score of the path on which it is committed.
-/

namespace Placement

/-- The paths show the same decisions for some demands. -/
def Path.AgreeOn (ds : List String) (p q : Path) : Prop := ∀ d ∈ ds, p.decision? d = q.decision? d

namespace Measure

variable {a : Atlas} {p q : Path} {ps : Params}

theorem decided_congr {d : String} (h : p.decision? d = q.decision? d) :
    decided p d = decided q d := by
  unfold decided
  rw [h]

theorem places_congr : ∀ {ds : List String}, Path.AgreeOn ds p q → places p ds = places q ds
  | [], _ => rfl
  | d :: ds, h => by
    unfold places
    rw [decided_congr (h d List.mem_cons_self),
      places_congr fun e he => h e (List.mem_cons_of_mem _ he)]

theorem subject_congr {f : Measure} (h : Path.AgreeOn ps.referenced p q) :
    f.subject p ps = f.subject q ps := by
  unfold subject
  cases hd : ps.demand with
  | none => rfl
  | some d => exact decided_congr (h d (by simp [Params.referenced, hd]))

theorem value_congr {f : Measure} (h : Path.AgreeOn ps.referenced p q) :
    f.value a p ps = f.value a q ps := by
  unfold value arguments
  cases f with
  | distance => simp only [places_congr h]
  | latency => simp only [subject_congr h]
  | field => simp only [subject_congr h]
  | cost => simp only [subject_congr h]

end Measure

theorem Params.isActive_congr {p q : Path} {ps : Params} (h : Path.AgreeOn ps.referenced p q) :
    ps.isActive p = ps.isActive q := by
  unfold isActive
  rw [Bool.eq_iff_iff, List.all_eq_true, List.all_eq_true]
  exact forall₂_congr fun d hd => by rw [h d hd]

namespace Term

variable {a : Atlas} {p q : Path}

mutual
theorem evaluate_congr : ∀ {t : Term}, Path.AgreeOn (referenced t) p q →
    evaluate a p t = evaluate a q t
  | leaf f ps scale, h => by
    rw [referenced] at h
    rw [evaluate, evaluate, Params.isActive_congr h, Measure.value_congr h]
  | node o ts scale, h => by
    rw [referenced] at h
    rw [evaluate, evaluate, values_congr h]

theorem values_congr : ∀ {ts : List Term}, Path.AgreeOn (referencedAll ts) p q →
    values a p ts = values a q ts
  | [], _ => by rw [values, values]
  | t :: ts, h => by
    rw [referencedAll] at h
    rw [values, values, evaluate_congr fun d hd => h d (List.mem_append_left _ hd),
      values_congr fun d hd => h d (List.mem_append_right _ hd)]
end

mutual
/-- A term none of whose leaves is active is not active. -/
theorem evaluate_of_inactive :
    ∀ {t : Term}, (∀ l ∈ leaves t, l.2.isActive p = false) → evaluate a p t = pure none
  | leaf f ps scale, h => by
    have hps := h (f, ps) (by rw [leaves]; exact List.mem_cons_self)
    rw [evaluate, if_neg (by rw [hps]; exact Bool.false_ne_true)]
  | node o ts scale, h => by
    rw [leaves] at h
    rw [evaluate, values_of_inactive h]
    rfl

theorem values_of_inactive :
    ∀ {ts : List Term}, (∀ l ∈ leavesAll ts, l.2.isActive p = false) → values a p ts = pure []
  | [], _ => by rw [values]
  | t :: ts, h => by
    rw [leavesAll] at h
    rw [values, evaluate_of_inactive fun l hl => h l (List.mem_append_left _ hl),
      values_of_inactive fun l hl => h l (List.mem_append_right _ hl)]
    rfl
end

end Term

namespace Objective

variable {o : Objective} {a : Atlas} {p q : Path} {d : String} {x : Candidate}

theorem evaluate_congr (h : Path.AgreeOn o.referenced p q) : o.evaluate a p = o.evaluate a q := by
  unfold evaluate
  rw [Term.values_congr h]

theorem score_eq (o : Objective) (a : Atlas) (p : Path) :
    o.score a p = o.evaluate a p >>= fun x => pure (p.withScore x) := by
  unfold score compute
  rw [Consult.map_eq, Consult.bind_assoc']
  refine congrArg (Consult.bind (o.evaluate a p).run) (funext fun r => ?_)
  rw [Path.run_takeScore]
  cases r with
  | ok x => rfl
  | error e => rfl

/-- What was assumed or scored before a candidate is assumed does not show in its score. -/
theorem score_assuming (h : Path.SameBut d p q) (x : Candidate) :
    o.score a (q.assuming d x) = o.score a (p.assuming d x) := by
  have hagree : Path.AgreeOn o.referenced (q.assuming d x) (p.assuming d x) := fun e _ => by
    unfold Path.decision? Path.assuming
    rw [h.put]
  rw [score_eq, score_eq, evaluate_congr hagree]
  simp only [h.withScore_assuming]

/-- Where no leaf is active the score is zero. -/
theorem evaluate_of_inactive (h : ∀ l ∈ Term.leavesAll o.operands, l.2.isActive p = false) :
    o.evaluate a p = pure 0.0 := by
  unfold evaluate
  rw [Term.values_of_inactive h]
  rfl

end Objective

/-- What follows a path's being scored starts from the path with its score, or from the path as it
was. -/
theorem Problem.compute_bind {α : Type} (p : Problem) (path : Path) (f : Path.Result → Solving α) :
    (ExceptT.lift (p.compute path) : Solving Path.Result) >>= f =
      Solving.attempt (p.score path) >>= fun s =>
        match s with
        | .ok scored => f (.ok () scored)
        | .error e => f (.error e path) := by
  have hlift : ∀ {β : Type} (x : Consult β) (g : β → Solving α),
      (ExceptT.lift x : Solving β) >>= g = (x >>= g : Consult (Except SolveError α)) :=
    fun x g => Consult.bind_assoc' x (Consult.done ∘ Except.ok) (ExceptT.bindCont g)
  unfold Solving.attempt
  rw [hlift, hlift]
  unfold score compute Objective.score Objective.compute
  rw [ExceptT.run_mk, Consult.map_eq, Consult.bind_assoc', Consult.bind_assoc', Consult.bind_assoc']
  refine congrArg (Consult.bind _) (funext fun r => ?_)
  cases r with
  | ok x => rfl
  | error e => rfl

end Placement
