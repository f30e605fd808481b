import Mathlib.Data.List.Induction
import Mathlib.Data.List.Nodup
import Placement.Path

/-!
# What the operations on a path do

The decisions, the committed demands and the trace are updated apart from each other. `run_assume`
and `run_commit` say what comes of it, failures included, and `Agrees` that the three speak of the
same commitments, which every operation preserves. An assumption and a commitment for a demand
change what is decided for that demand and nothing else. `SameBut d p q` says that two paths differ
at most in the assumption for `d` and in the score, which is how far a search may stray from a path
while it tries candidates for `d`.
-/

namespace Placement.Path

variable {p q r : Path} {d e : String} {x : Candidate} {entries : List (String × Candidate)}

/-! ## Entries -/

@[simp] theorem without_without (d : String) (entries : List (String × Candidate)) :
    without d (without d entries) = without d entries := by
  simp [without]

theorem without_of_not_mem (h : d ∉ entries.map Prod.fst) : without d entries = entries := by
  unfold without
  rw [List.filter_eq_self]
  intro e he
  exact bne_iff_ne.2 fun hed => h (hed ▸ List.mem_map_of_mem he)

@[simp] theorem without_put (entries : List (String × Candidate)) (d : String) (x : Candidate) :
    without d (put entries d x) = without d entries := by
  simp [without, put]

theorem put_of_not_mem (h : d ∉ entries.map Prod.fst) (x : Candidate) :
    put entries d x = entries ++ [(d, x)] := by
  unfold put
  rw [without_of_not_mem h]

theorem lookup_without (entries : List (String × Candidate)) (d e : String) :
    (without d entries).lookup e = if e = d then none else entries.lookup e := by
  induction entries with
  | nil => simp [without]
  | cons f entries ih =>
    obtain ⟨k, x⟩ := f
    unfold without at ih ⊢
    rw [List.filter_cons, List.lookup_cons]
    by_cases hk : k = d
    · subst hk
      rw [bne_self_eq_false, if_neg Bool.false_ne_true, ih]
      by_cases he : e = k
      · rw [if_pos he, if_pos he]
      · rw [if_neg he, if_neg he, beq_false_of_ne he]
    · rw [if_pos (bne_iff_ne.2 hk), List.lookup_cons, ih]
      by_cases he : e = k
      · subst he
        simp [hk]
      · rw [beq_false_of_ne he]

theorem lookup_put (entries : List (String × Candidate)) (d e : String) (x : Candidate) :
    (put entries d x).lookup e = if e = d then some x else entries.lookup e := by
  unfold put
  rw [List.lookup_append, lookup_without]
  by_cases he : e = d
  · subst he
    simp
  · rw [if_neg he, if_neg he, List.lookup_cons, beq_false_of_ne he, List.lookup_nil, Option.or_none]

theorem nodup_without (h : (entries.map Prod.fst).Nodup) (d : String) :
    ((without d entries).map Prod.fst).Nodup :=
  h.sublist (List.filter_sublist.map _)

theorem nodup_put (h : (entries.map Prod.fst).Nodup) (d : String) (x : Candidate) :
    ((put entries d x).map Prod.fst).Nodup := by
  unfold put
  rw [List.map_append, List.nodup_append]
  refine ⟨nodup_without h d, List.nodup_singleton _, fun e he f hf => ?_⟩
  obtain ⟨entry, hentry, rfl⟩ := List.mem_map.1 he
  rw [List.mem_singleton.1 hf]
  exact bne_iff_ne.1 (List.mem_filter.1 hentry).2

theorem mem_map_fst_iff : d ∈ entries.map Prod.fst ↔ (entries.lookup d).isSome = true := by
  simp

/-! ## Views -/

theorem isDecided_iff_mem : p.isDecided d = true ↔ d ∈ p.fixed := List.contains_iff_mem

theorem isDecided_eq_false_iff : p.isDecided d = false ↔ d ∉ p.fixed := by
  rw [← Bool.not_eq_true, isDecided_iff_mem]

/-- A commitment is a decision for a demand that is committed. -/
theorem decided_eq_some : p.decided d = some x ↔ p.isDecided d = true ∧ p.decision? d = some x := by
  unfold decided
  cases p.isDecided d with
  | true => simp
  | false => simp

theorem decided_of_isDecided (h : p.isDecided d = true) : p.decided d = p.decision? d := if_pos h

theorem mem_committed : (d, x) ∈ p.committed ↔ p.decided d = some x := by
  unfold committed
  rw [List.mem_filterMap, decided_eq_some, isDecided_iff_mem]
  constructor
  · rintro ⟨e, he, h⟩
    obtain ⟨y, hy, hpair⟩ := Option.map_eq_some_iff.1 h
    cases hpair
    exact ⟨he, hy⟩
  · rintro ⟨hd, hx⟩
    exact ⟨d, hd, by rw [hx]; rfl⟩

theorem decided_congr (h : p.committed = q.committed) (d : String) : p.decided d = q.decided d := by
  refine Option.ext fun x => ?_
  rw [← mem_committed, ← mem_committed, h]

theorem decided_of_split {pre post : List (String × Candidate)}
    (h : p.committed = pre ++ (d, x) :: post) :
    p.decided d = some x := by
  rw [← mem_committed, h]
  exact List.mem_append_right _ List.mem_cons_self

theorem committed_congr (hfixed : q.fixed = p.fixed)
    (h : ∀ d ∈ p.fixed, q.decision? d = p.decision? d) :
    q.committed = p.committed := by
  unfold committed
  rw [hfixed]
  exact List.filterMap_congr fun d hd => by rw [h d hd]

/-- What has a decision is a key of the decisions. -/
theorem decision?_isSome : (p.decision? d).isSome = true ↔ d ∈ p.decisions.map Prod.fst :=
  mem_map_fst_iff.symm

/-! ## Operations -/

/-- The path with a candidate assumed. -/
def assuming (p : Path) (d : String) (x : Candidate) : Path :=
  { p with decisions := put p.decisions d x }

/-- The path with one commitment more. -/
def committing (p : Path) (d : String) (x : Candidate) : Path :=
  { p with
    decisions := put p.decisions d x
    fixed := p.fixed ++ [d]
    trace := p.trace ++ segment (d, x) }

theorem run_assume : (Update.assume d x).run p =
    if p.isDecided d then .error (.alreadyDecided d) p else .ok () (p.assuming d x) := by
  unfold Update.assume
  simp only [EStateM.run_bind, EStateM.run_get]
  cases p.isDecided d with
  | true => rfl
  | false => rfl

theorem run_fix : (Update.fix d).run p =
    .ok (!p.isDecided d) { p with fixed := if p.isDecided d then p.fixed else p.fixed ++ [d] } := by
  unfold Update.fix
  simp only [EStateM.run_bind, EStateM.run_get]
  cases p.isDecided d with
  | true => rfl
  | false => rfl

/-- A commitment fails while it enters the demand, where it stands already, and before anything
else. -/
theorem run_commit : (Update.commit d x).run p =
    if p.isDecided d then .error (.alreadyDecided d) p else .ok () (p.committing d x) := by
  unfold Update.commit
  simp only [EStateM.run_bind, run_fix]
  cases p.isDecided d with
  | true => rfl
  | false => rfl

/-- The score is only touched once the evaluation has come to a value. -/
theorem run_takeScore (s : Except SolveError Float) : (Update.takeScore s).run p =
    match s with
    | .ok v => .ok () (p.withScore v)
    | .error e => .error e p := by
  unfold Update.takeScore
  cases s with
  | ok v => rfl
  | error e => rfl

/-- An update that fails under a condition and leaves a path otherwise. -/
theorem toExcept_ite_ok {b : Bool} {err : SolveError} :
    Result.toExcept (if b then .error err p else .ok () q) = .ok r ↔ b = false ∧ r = q := by
  cases b with
  | true => simp [Result.toExcept]
  | false => simp [Result.toExcept, eq_comm]

theorem toExcept_ite_error {b : Bool} {err err' : SolveError} :
    Result.toExcept (if b then .error err p else .ok () q) = .error err' ↔
      b = true ∧ err' = err := by
  cases b with
  | true => simp [Result.toExcept, eq_comm]
  | false => simp [Result.toExcept]

theorem assume_ok : p.assume d x = .ok q ↔ p.isDecided d = false ∧ q = p.assuming d x := by
  unfold assume
  rw [run_assume]
  exact toExcept_ite_ok

theorem assume_error {err : SolveError} :
    p.assume d x = .error err ↔ p.isDecided d = true ∧ err = .alreadyDecided d := by
  unfold assume
  rw [run_assume]
  exact toExcept_ite_error

theorem commit_ok : p.commit d x = .ok q ↔ p.isDecided d = false ∧ q = p.committing d x := by
  unfold commit
  rw [run_commit]
  exact toExcept_ite_ok

theorem commit_error {err : SolveError} :
    p.commit d x = .error err ↔ p.isDecided d = true ∧ err = .alreadyDecided d := by
  unfold commit
  rw [run_commit]
  exact toExcept_ite_error

/-! ### What they do to the decisions -/

theorem decision?_assuming (p : Path) (d e : String) (x : Candidate) :
    (p.assuming d x).decision? e = if e = d then some x else p.decision? e :=
  lookup_put p.decisions d e x

theorem decision?_committing (p : Path) (d e : String) (x : Candidate) :
    (p.committing d x).decision? e = if e = d then some x else p.decision? e :=
  lookup_put p.decisions d e x

theorem decision?_retract (p : Path) (d e : String) :
    (p.retract d).decision? e = if p.isDecided d = false ∧ e = d then none else p.decision? e := by
  unfold retract
  cases h : p.isDecided d with
  | true => simp
  | false =>
    simp only [Bool.false_eq_true, if_false, true_and]
    exact lookup_without p.decisions d e

@[simp] theorem fixed_retract (p : Path) (d : String) : (p.retract d).fixed = p.fixed := by
  unfold retract
  split <;> rfl

@[simp] theorem trace_retract (p : Path) (d : String) : (p.retract d).trace = p.trace := by
  unfold retract
  split <;> rfl

@[simp] theorem current_retract (p : Path) (d : String) : (p.retract d).current = p.current := by
  unfold retract
  split <;> rfl

theorem committed_assuming (h : p.isDecided d = false) (x : Candidate) :
    (p.assuming d x).committed = p.committed := by
  refine committed_congr rfl fun e he => ?_
  rw [decision?_assuming, if_neg]
  rintro rfl
  exact isDecided_eq_false_iff.1 h he

theorem committed_retract (p : Path) (d : String) : (p.retract d).committed = p.committed := by
  refine committed_congr (fixed_retract p d) fun e he => ?_
  rw [decision?_retract, if_neg]
  rintro ⟨h, rfl⟩
  exact isDecided_eq_false_iff.1 h he

theorem committed_committing (h : p.isDecided d = false) (x : Candidate) :
    (p.committing d x).committed = p.committed ++ [(d, x)] := by
  have hbefore := committed_assuming h x
  -- The new commitment comes last, and the others are what they are with `x` assumed.
  unfold committed at hbefore ⊢
  rw [show (p.committing d x).fixed = p.fixed ++ [d] from rfl, List.filterMap_append, ← hbefore]
  refine congrArg (_ ++ ·) ?_
  simp [decision?_committing]

/-- Where nothing is estimated to come, the score zero is the total. -/
theorem totalValue_withScore_zero (h : p.heuristicValue = 0.0) :
    (p.withScore 0.0).totalValue = 0.0 := by
  unfold withScore refreshTotals
  simp only [h]
  decide +kernel

/-! ## Agreement -/

/-- What is decided, what is committed and what the trace tells agree: no demand has two decisions,
each committed demand has one, and the trace consists of the commitments. -/
structure Agrees (p : Path) : Prop where
  keys : (p.decisions.map Prod.fst).Nodup
  fixed : p.fixed.Nodup
  decided : ∀ d ∈ p.fixed, d ∈ p.decisions.map Prod.fst
  trace : p.trace = String.join (p.committed.map segment)

theorem agrees_empty : ({} : Path).Agrees :=
  ⟨List.nodup_nil, List.nodup_nil, (fun _ h => nomatch h), rfl⟩

/-- Scores and the demand under resolution do not matter. -/
theorem Agrees.congr (h : p.Agrees) (hdecisions : q.decisions = p.decisions)
    (hfixed : q.fixed = p.fixed) (htrace : q.trace = p.trace) : q.Agrees := by
  have hcommitted : q.committed = p.committed :=
    committed_congr hfixed fun d _ => by unfold decision?; rw [hdecisions]
  exact ⟨by rw [hdecisions]; exact h.keys, by rw [hfixed]; exact h.fixed,
    by rw [hfixed, hdecisions]; exact h.decided, by rw [htrace, hcommitted]; exact h.trace⟩

theorem Agrees.assuming (h : p.Agrees) (hd : p.isDecided d = false) (x : Candidate) :
    (p.assuming d x).Agrees := by
  refine ⟨nodup_put h.keys d x, h.fixed, fun e he => ?_, ?_⟩
  · rw [← decision?_isSome, decision?_assuming]
    split
    · rfl
    · exact decision?_isSome.2 (h.decided e he)
  · rw [committed_assuming hd]
    exact h.trace

theorem Agrees.retract (h : p.Agrees) (d : String) : (p.retract d).Agrees := by
  refine ⟨?_, by rw [fixed_retract]; exact h.fixed, fun e he => ?_, ?_⟩
  · unfold Path.retract
    split
    · exact h.keys
    · exact nodup_without h.keys d
  · rw [fixed_retract] at he
    rw [← decision?_isSome, decision?_retract, if_neg]
    · exact decision?_isSome.2 (h.decided e he)
    · rintro ⟨hd, rfl⟩
      exact isDecided_eq_false_iff.1 hd he
  · rw [trace_retract, committed_retract]
    exact h.trace

theorem Agrees.committing (h : p.Agrees) (hd : p.isDecided d = false) (x : Candidate) :
    (p.committing d x).Agrees := by
  have hnew := isDecided_eq_false_iff.1 hd
  refine ⟨nodup_put h.keys d x, ?_, fun e he => ?_, ?_⟩
  · exact List.nodup_append.2 ⟨h.fixed, List.nodup_singleton d,
      fun e he f hf hef => hnew (List.mem_singleton.1 hf ▸ hef ▸ he)⟩
  · rw [← decision?_isSome, decision?_committing]
    split
    · rfl
    · next hne =>
      have hfixed : e ∈ p.fixed :=
        (List.mem_append.1 he).resolve_right fun h => hne (List.mem_singleton.1 h)
      exact decision?_isSome.2 (h.decided e hfixed)
  · rw [committed_committing hd, List.map_append, String.join_append, ← h.trace]
    rfl

/-- Each committed demand has its place among the commitments. -/
theorem Agrees.map_fst_committed (h : p.Agrees) : p.committed.map Prod.fst = p.fixed := by
  unfold committed
  rw [List.map_filterMap]
  refine (List.filterMap_congr fun d hd => ?_).trans List.filterMap_some
  obtain ⟨x, hx⟩ := Option.isSome_iff_exists.1 (decision?_isSome.2 (h.decided d hd))
  rw [hx]
  rfl

theorem Agrees.isDecided_iff (h : p.Agrees) :
    p.isDecided d = true ↔ d ∈ p.committed.map Prod.fst := by
  rw [h.map_fst_committed, isDecided_iff_mem]

theorem Agrees.isDecided_eq_false (h : p.Agrees) :
    p.isDecided d = false ↔ d ∉ p.committed.map Prod.fst := by
  rw [← Bool.not_eq_true, h.isDecided_iff]

theorem Agrees.exists_decided (h : p.Agrees) (hd : p.isDecided d = true) :
    ∃ x, p.decided d = some x := by
  rw [decided_of_isDecided hd]
  exact Option.isSome_iff_exists.1 (decision?_isSome.2 (h.decided d (isDecided_iff_mem.1 hd)))

/-- Where the names still to come differ from those decided, the next one is not decided. -/
theorem Agrees.not_isDecided_of_nodup (h : p.Agrees) {ds : List String}
    (hnodup : (p.committed.map Prod.fst ++ d :: ds).Nodup) : p.isDecided d = false := by
  obtain ⟨-, -, hdisjoint⟩ := List.nodup_append.1 hnodup
  exact h.isDecided_eq_false.2 fun hd => hdisjoint d hd d List.mem_cons_self rfl

/-! ## Paths of commitments alone -/

/-- The path on which some candidates have been committed, one after the other. -/
def holding (entries : List (String × Candidate)) : Path :=
  { decisions := entries
    fixed := entries.map Prod.fst
    trace := String.join (entries.map segment) }

theorem isDecided_holding : (holding entries).isDecided d = true ↔ d ∈ entries.map Prod.fst :=
  isDecided_iff_mem

theorem decided_holding (entries : List (String × Candidate)) (d : String) :
    (holding entries).decided d = entries.lookup d := by
  unfold decided
  split
  · rfl
  · next h =>
    rw [isDecided_holding, mem_map_fst_iff, Bool.not_eq_true, Option.isSome_eq_false_iff] at h
    exact (Option.isNone_iff_eq_none.1 h).symm

/-- A path of commitments alone comes about by commitments. -/
theorem holding_concat (h : d ∉ entries.map Prod.fst) (x : Candidate) :
    holding (entries ++ [(d, x)]) = (holding entries).committing d x := by
  unfold holding committing
  simp only [put_of_not_mem h, List.map_append, String.join_append]
  rfl

theorem holding_spec (h : (entries.map Prod.fst).Nodup) :
    (holding entries).Agrees ∧ (holding entries).committed = entries := by
  induction entries using List.reverseRecOn with
  | nil => exact ⟨agrees_empty, rfl⟩
  | append_singleton entries e ih =>
    rw [List.map_append] at h
    obtain ⟨hnodup, -, hdisjoint⟩ := List.nodup_append.1 h
    have hnew : e.1 ∉ entries.map Prod.fst :=
      fun hmem => hdisjoint _ hmem _ (List.mem_singleton_self _) rfl
    have hopen : (holding entries).isDecided e.1 = false := isDecided_eq_false_iff.2 hnew
    obtain ⟨hagrees, hcommitted⟩ := ih hnodup
    rw [show e = (e.1, e.2) from rfl, holding_concat hnew]
    exact ⟨hagrees.committing hopen e.2, by rw [committed_committing hopen, hcommitted]⟩

/-! ## Decisions that stand -/

/-- Every decision on the first path stands on the second. -/
def Keeps (p q : Path) : Prop := ∀ d x, p.decision? d = some x → q.decision? d = some x

theorem Keeps.trans (h : p.Keeps q) (h' : q.Keeps r) : p.Keeps r := fun d x hd => h' d x (h d x hd)

/-- A decision is a commitment or an assumption. -/
theorem mem_assumed_of_decision? (h : p.decision? d = some x) (hd : p.isDecided d = false) :
    (d, x) ∈ p.assumed := by
  obtain ⟨pre, post, hsplit, -⟩ := List.lookup_eq_some_iff.1 h
  refine List.mem_filter.2 ⟨?_, by rw [hd]; rfl⟩
  rw [hsplit]
  exact List.mem_append_right _ List.mem_cons_self

/-- Commitments stand as long as they are not taken back. -/
theorem keeps_of_prefix (h : p.committed <+: q.committed) (ha : p.assumed = []) : p.Keeps q := by
  intro d x hx
  have hd : p.isDecided d = true := by
    rw [← Bool.not_eq_false]
    intro hd
    have hmem := mem_assumed_of_decision? hx hd
    rw [ha] at hmem
    cases hmem
  have hmem : (d, x) ∈ p.committed := mem_committed.2 (decided_eq_some.2 ⟨hd, hx⟩)
  exact (decided_eq_some.1 (mem_committed.1 (h.subset hmem))).2

/-! ## Paths that differ in a trial -/

/-- The paths differ at most in the assumption for a demand and in the score. -/
structure SameBut (d : String) (p q : Path) : Prop where
  decisions : without d q.decisions = without d p.decisions
  fixed : q.fixed = p.fixed
  trace : q.trace = p.trace
  current : q.current = p.current
  cumulatedCost : q.cumulatedCost = p.cumulatedCost
  heuristicValue : q.heuristicValue = p.heuristicValue
  heuristicCost : q.heuristicCost = p.heuristicCost

theorem SameBut.refl (d : String) (p : Path) : SameBut d p p := ⟨rfl, rfl, rfl, rfl, rfl, rfl, rfl⟩

theorem SameBut.trans (h : SameBut d p q) (h' : SameBut d q r) : SameBut d p r :=
  ⟨h'.decisions.trans h.decisions, h'.fixed.trans h.fixed, h'.trace.trans h.trace,
    h'.current.trans h.current, h'.cumulatedCost.trans h.cumulatedCost,
    h'.heuristicValue.trans h.heuristicValue, h'.heuristicCost.trans h.heuristicCost⟩

theorem SameBut.isDecided (h : SameBut d p q) (e : String) : q.isDecided e = p.isDecided e := by
  unfold Path.isDecided
  rw [h.fixed]

/-- An entry for the demand takes the place of what was tried before. -/
theorem SameBut.put (h : SameBut d p q) (x : Candidate) :
    Path.put q.decisions d x = Path.put p.decisions d x := by
  unfold Path.put
  rw [h.decisions]

theorem sameBut_assume (h : p.assume d x = .ok q) : SameBut d p q := by
  obtain ⟨-, rfl⟩ := assume_ok.1 h
  exact ⟨without_put _ _ _, rfl, rfl, rfl, rfl, rfl, rfl⟩

theorem sameBut_withScore (d : String) (p : Path) (v : Float) : SameBut d p (p.withScore v) :=
  ⟨rfl, rfl, rfl, rfl, rfl, rfl, rfl⟩

/-- What is scored on paths that differ in a trial does not show which of them it was assumed on. -/
theorem SameBut.withScore_assuming (h : SameBut d p q) (x : Candidate) (v : Float) :
    (q.assuming d x).withScore v = (p.assuming d x).withScore v := by
  unfold assuming withScore refreshTotals
  rw [h.put, h.fixed, h.trace, h.current, h.cumulatedCost, h.heuristicValue, h.heuristicCost]

end Placement.Path
