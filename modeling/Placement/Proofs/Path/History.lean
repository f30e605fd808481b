import Mathlib.Data.List.Induction
import Placement.Engine.Recorded
import Placement.Proofs.Engine.Conversation
import Placement.Proofs.Path
import Placement.Proofs.Problem
import Placement.Proofs.Table

/-!
# Histories of a path

A path may be put through any operations in any order, of which any may fail. `perform` notes for
each of them whether it has failed and what path it leaves, failed or not. `Step` says what one
operation can do. From this it follows by induction that the decisions, the committed demands and
the trace agree at all times, and that what they agree on are the commitments that have not failed,
however assumptions come and go in between.
-/

namespace Placement

namespace Path

/-! ## Operations -/

inductive Operation where
  | assume (demand : String) (c : Candidate)
  | retract (demand : String)
  | commit (demand : String) (c : Candidate)
  | compute (o : Objective) (a : Atlas)
  | refreshTotals

/-- What the operation leaves of a path. -/
def Operation.run (op : Operation) (p : Path) : Consult Result :=
  match op with
  | assume d x => pure ((Update.assume d x).run p)
  | retract d => pure (.ok () (p.retract d))
  | commit d x => pure ((Update.commit d x).run p)
  | compute o a => o.compute a p
  | refreshTotals => pure (.ok () p.refreshTotals)

/-- An operation that has been performed: why it has failed, if it has, and the path that it
leaves. -/
structure Performed where
  operation : Operation
  failure : Option SolveError
  path : Path

def Performed.ofResult (op : Operation) : Result → Performed
  | .ok _ q => ⟨op, none, q⟩
  | .error e q => ⟨op, some e, q⟩

def performOne (p : Path) (op : Operation) : Consult Performed := Performed.ofResult op <$> op.run p

/-- Some operations one after the other, whether they fail or not. -/
def perform (p : Path) : List Operation → Consult (List Performed)
  | [] => pure []
  | op :: ops => do
    let step ← performOne p op
    let steps ← perform step.path ops
    pure (step :: steps)

/-- The path after some steps. -/
def after (p : Path) (steps : List Performed) : Path := (steps.getLast?.map Performed.path).getD p

/-- What the step has committed to: nothing, unless it is a commitment that has not failed. -/
def Performed.commitment? (step : Performed) : Option (String × Candidate) :=
  match step.operation, step.failure with
  | .commit d x, none => some (d, x)
  | _, _ => none

/-- The commitments that have not failed, in their order. -/
def commitments (steps : List Performed) : List (String × Candidate) :=
  steps.filterMap Performed.commitment?

/-- What a path says about its commitments is what they have been. -/
structure Records (p : Path) (commits : List (String × Candidate)) : Prop where
  distinct : (commits.map Prod.fst).Nodup
  isDecided : ∀ d, p.isDecided d = true ↔ d ∈ commits.map Prod.fst
  decided : ∀ d x, p.decided d = some x ↔ (d, x) ∈ commits
  decisions : ∀ d x, (d, x) ∈ commits → p.decision? d = some x ∧ ∀ y, (d, y) ∈ p.decisions ↔ y = x
  trace : p.trace = String.join (commits.map fun e => e.1 ++ ":" ++ e.2.id ++ ">")
  result : Table.Sorted p.toDecision.decisions ∧ ∀ e, e ∈ p.toDecision.decisions ↔ e ∈ commits

variable {p q : Path} {op : Operation} {ops : List Operation} {step : Performed}
  {steps before rest : List Performed} {log : List Exchange} {d : String} {x : Candidate}
  {r : Result}

/-- A path whose parts agree tells the same of its commitments in all of them. -/
theorem Agrees.records (h : p.Agrees) : p.Records p.committed := by
  have hkeys : ((p.decisions.filter fun e => p.isDecided e.1).map Prod.fst).Nodup :=
    h.keys.sublist (List.filter_sublist.map _)
  have hget : ∀ d, Table.get? p.toDecision.decisions d = p.decided d := fun d => by
    unfold toDecision
    rw [Table.get?_ofList hkeys, ← Table.get?_eq_lookup, Table.get?_filter, Table.get?_eq_lookup]
    rfl
  have hsorted : Table.Sorted p.toDecision.decisions := Table.sorted_ofList _
  refine ⟨?_, fun d => h.isDecided_iff, fun d x => mem_committed.symm, fun d x hx => ?_, h.trace,
    hsorted, ?_⟩
  · rw [h.map_fst_committed]
    exact h.fixed
  · obtain ⟨-, hdecision⟩ := decided_eq_some.1 (mem_committed.1 hx)
    refine ⟨hdecision, fun y => ?_⟩
    rw [← Table.lookup_eq_some h.keys]
    exact ⟨fun hy => Option.some.inj (hy.symm.trans hdecision), fun hy => hy ▸ hdecision⟩
  · rintro ⟨d, x⟩
    rw [mem_committed, ← hget]
    exact ⟨Table.get?_of_mem hsorted, Table.mem_of_get?⟩

/-! ## Steps -/

/-- What one operation makes of a path. -/
inductive Step (p : Path) : Performed → Prop where
  | assume {d : String} {x : Candidate} :
      p.isDecided d = false → Step p ⟨.assume d x, none, p.assuming d x⟩
  | assumeTaken {d : String} {x : Candidate} :
      p.isDecided d = true → Step p ⟨.assume d x, some (.alreadyDecided d), p⟩
  | retract {d : String} : Step p ⟨.retract d, none, p.retract d⟩
  | commit {d : String} {x : Candidate} :
      p.isDecided d = false → Step p ⟨.commit d x, none, p.committing d x⟩
  | commitTaken {d : String} {x : Candidate} :
      p.isDecided d = true → Step p ⟨.commit d x, some (.alreadyDecided d), p⟩
  | compute {o : Objective} {a : Atlas} (v : Float) : Step p ⟨.compute o a, none, p.withScore v⟩
  | computeFailed {o : Objective} {a : Atlas} (e : SolveError) : Step p ⟨.compute o a, some e, p⟩
  | refreshTotals : Step p ⟨.refreshTotals, none, p.refreshTotals⟩

theorem step_of_run (h : Consult.Ends (op.run p) log r) : Step p (.ofResult op r) := by
  cases op with
  | assume d x =>
    obtain ⟨-, rfl⟩ := Consult.ends_done.1 h
    rw [run_assume]
    cases hd : p.isDecided d with
    | true => exact .assumeTaken hd
    | false => exact .assume hd
  | retract d =>
    obtain ⟨-, rfl⟩ := Consult.ends_done.1 h
    exact .retract
  | commit d x =>
    obtain ⟨-, rfl⟩ := Consult.ends_done.1 h
    rw [run_commit]
    cases hd : p.isDecided d with
    | true => exact .commitTaken hd
    | false => exact .commit hd
  | compute o a =>
    obtain ⟨log₁, log₂, s, rfl, -, h⟩ := Consult.ends_of_bind h
    obtain ⟨-, rfl⟩ := Consult.ends_done.1 h
    rw [run_takeScore]
    cases s with
    | ok v => exact .compute v
    | error e => exact .computeFailed e
  | refreshTotals =>
    obtain ⟨-, rfl⟩ := Consult.ends_done.1 h
    exact .refreshTotals

theorem step_of_performOne (h : Consult.Ends (performOne p op) log step) :
    step.operation = op ∧ Step p step := by
  obtain ⟨log₁, log₂, r, rfl, hr, h⟩ := Consult.ends_of_bind h
  obtain ⟨-, rfl⟩ := Consult.ends_done.1 h
  refine ⟨?_, step_of_run hr⟩
  cases r with
  | ok _ q => rfl
  | error e q => rfl

/-- An operation that fails leaves the path as it was. -/
theorem Step.path_of_failure (h : Step p step) (hfailure : step.failure.isSome = true) :
    step.path = p := by
  cases h with
  | assumeTaken _ => rfl
  | commitTaken _ => rfl
  | computeFailed _ => rfl
  | _ => cases hfailure

theorem Step.agrees (h : Step p step) (hp : p.Agrees) : step.path.Agrees := by
  cases h with
  | assume hd => exact hp.assuming hd _
  | assumeTaken _ => exact hp
  | retract => exact hp.retract _
  | commit hd => exact hp.committing hd _
  | commitTaken _ => exact hp
  | compute v => exact hp.congr rfl rfl rfl
  | computeFailed _ => exact hp
  | refreshTotals => exact hp.congr rfl rfl rfl

/-- The second path has some commitments more than the first, and the same demand under
resolution. -/
structure Grows (p : Path) (more : List (String × Candidate)) (q : Path) : Prop where
  committed : q.committed = p.committed ++ more
  fixed : q.fixed = p.fixed ++ more.map Prod.fst
  trace : q.trace = p.trace ++ String.join (more.map segment)
  current : q.current = p.current

theorem Grows.of_same (hcommitted : q.committed = p.committed) (hfixed : q.fixed = p.fixed)
    (htrace : q.trace = p.trace) (hcurrent : q.current = p.current) : Grows p [] q :=
  ⟨by rw [hcommitted, List.append_nil], by rw [hfixed, List.map_nil, List.append_nil],
    by rw [htrace, List.map_nil, String.join_nil, String.append_empty], hcurrent⟩

theorem Grows.refl (p : Path) : Grows p [] p := .of_same rfl rfl rfl rfl

theorem Grows.trans {more more' : List (String × Candidate)} {r : Path} (h : Grows p more q)
    (h' : Grows q more' r) : Grows p (more ++ more') r := by
  refine ⟨?_, ?_, ?_, h'.current.trans h.current⟩
  · rw [h'.committed, h.committed, List.append_assoc]
  · rw [h'.fixed, h.fixed, List.map_append, List.append_assoc]
  · rw [h'.trace, h.trace, List.map_append, String.join_append, String.append_assoc]

theorem grows_committing (hd : p.isDecided d = false) (x : Candidate) :
    Grows p [(d, x)] (p.committing d x) :=
  ⟨committed_committing hd x, rfl, rfl, rfl⟩

/-- A step adds to the commitments what it has committed to. -/
theorem Step.grows (h : Step p step) : Grows p step.commitment?.toList step.path := by
  cases h with
  | assume hd => exact .of_same (committed_assuming hd _) rfl rfl rfl
  | assumeTaken _ => exact .refl p
  | retract =>
    exact .of_same (committed_retract p _) (fixed_retract p _) (trace_retract p _)
      (current_retract p _)
  | commit hd => exact grows_committing hd _
  | commitTaken _ => exact .refl p
  | compute v => exact .of_same rfl rfl rfl rfl
  | computeFailed _ => exact .refl p
  | refreshTotals => exact .of_same rfl rfl rfl rfl

/-- Assumptions and commitments fail exactly where there is a commitment already. -/
theorem Step.failure_iff (h : Step p step)
    (hop : step.operation = .assume d x ∨ step.operation = .commit d x) :
    step.failure = none ↔ p.isDecided d = false := by
  cases h with
  | assume hd =>
    obtain ⟨rfl, -⟩ := by simpa using hop
    exact iff_of_true rfl hd
  | assumeTaken hd =>
    obtain ⟨rfl, -⟩ := by simpa using hop
    simp [hd]
  | commit hd =>
    obtain ⟨rfl, -⟩ := by simpa using hop
    exact iff_of_true rfl hd
  | commitTaken hd =>
    obtain ⟨rfl, -⟩ := by simpa using hop
    simp [hd]
  | _ => simp at hop

/-! ## Histories -/

theorem after_cons (p : Path) (step : Performed) (steps : List Performed) :
    after p (step :: steps) = after step.path steps := by
  unfold after
  rw [List.getLast?_cons]
  cases steps.getLast? with
  | none => rfl
  | some last => rfl

theorem after_concat (p : Path) (steps : List Performed) (step : Performed) :
    after p (steps ++ [step]) = step.path := by
  unfold after
  rw [List.getLast?_concat]
  rfl

/-- Every step starts from the path that the steps before it leave. -/
theorem steps_of_perform :
    ∀ {ops : List Operation} {p : Path} {log : List Exchange} {steps : List Performed},
    Consult.Ends (perform p ops) log steps → steps.map Performed.operation = ops ∧
      ∀ before step rest, steps = before ++ step :: rest → Step (after p before) step
  | [], p, log, steps, h => by
    obtain ⟨-, rfl⟩ := Consult.ends_done.1 h
    exact ⟨rfl, fun before step rest hsplit => absurd hsplit.symm
      (List.append_ne_nil_of_right_ne_nil _ (List.cons_ne_nil _ _))⟩
  | op :: ops, p, log, steps, h => by
    unfold perform at h
    obtain ⟨log₁, log₂, first, rfl, hfirst, h⟩ := Consult.ends_of_bind h
    obtain ⟨log₃, log₄, more, rfl, hmore, h⟩ := Consult.ends_of_bind h
    obtain ⟨rfl, rfl⟩ := Consult.ends_done.1 h
    obtain ⟨hop, hstep⟩ := step_of_performOne hfirst
    obtain ⟨hops, hsteps⟩ := steps_of_perform hmore
    refine ⟨by rw [List.map_cons, hop, hops], fun before step rest hsplit => ?_⟩
    cases before with
    | nil =>
      cases hsplit
      exact hstep
    | cons b before =>
      cases hsplit
      rw [after_cons]
      exact hsteps before step rest rfl

theorem commitments_concat (steps : List Performed) (step : Performed) :
    commitments (steps ++ [step]) = commitments steps ++ step.commitment?.toList := by
  unfold commitments
  rw [List.filterMap_append]
  cases hstep : step.commitment? with
  | none => rw [List.filterMap_cons_none hstep]; rfl
  | some e => rw [List.filterMap_cons_some hstep]; rfl

/-- What every step preserves holds after any number of steps. -/
theorem after_induction {motive : List Performed → Path → Prop} (start : motive [] p)
    (next : ∀ before q step, motive before q → Step q step → motive (before ++ [step]) step.path)
    (h : Consult.Ends (perform p ops) log steps) (hsplit : steps = before ++ rest) :
    motive before (after p before) := by
  obtain ⟨-, hsteps⟩ := steps_of_perform h
  induction before using List.reverseRecOn generalizing rest with
  | nil => exact start
  | append_singleton before step ih =>
    rw [List.append_assoc, List.singleton_append] at hsplit
    rw [after_concat]
    exact next before (after p before) step (ih hsplit) (hsteps before step rest hsplit)

theorem agrees_after (hp : p.Agrees) (h : Consult.Ends (perform p ops) log steps)
    (hsplit : steps = before ++ rest) :
    (after p before).Agrees :=
  after_induction (motive := fun _ q => q.Agrees) hp
    (fun _ _ _ hq hstep => hstep.agrees hq) h hsplit

theorem grows_after (h : Consult.Ends (perform p ops) log steps) (hsplit : steps = before ++ rest) :
    Grows p (commitments before) (after p before) :=
  after_induction (motive := fun before q => Grows p (commitments before) q) (.refl p)
    (fun before q step hq hstep => by rw [commitments_concat]; exact hq.trans hstep.grows) h hsplit

/-- Whatever is done to a new path, and whatever of it fails, after each step the path records the
commitments that have not failed: they are for demands that differ, they are what is decided and
what stands among the decisions, and in their order they make up the trace, which only grows. A step
that fails leaves the path as it was, and an assumption or a commitment fails exactly where there is
a commitment for its demand already. -/
theorem records_of_perform {σ : Type} {engine : Engine σ} {s : σ}
    (h : ((perform {} ops).run engine s).result = some steps) :
    steps.map Performed.operation = ops ∧ ∀ before step rest, steps = before ++ step :: rest →
      step.path.Records (commitments (before ++ [step])) ∧
        (∃ text, step.path.trace = (after {} before).trace ++ text) ∧
        (step.failure.isSome = true → step.path = after {} before) ∧
        ∀ d x, step.operation = .assume d x ∨ step.operation = .commit d x →
          (step.failure = none ↔ d ∉ (commitments before).map Prod.fst) := by
  obtain ⟨h, -⟩ := Consult.ends_of_run h
  obtain ⟨hops, hsteps⟩ := steps_of_perform h
  refine ⟨hops, fun before step rest hsplit => ?_⟩
  have hstep := hsteps before step rest hsplit
  have hbefore := agrees_after agrees_empty h hsplit
  have hgrown : (after {} before).committed = commitments before := (grows_after h hsplit).committed
  refine ⟨?_, ⟨_, hstep.grows.trace⟩, hstep.path_of_failure, fun d x hop => ?_⟩
  · have hrecords := (hstep.agrees hbefore).records
    rwa [hstep.grows.committed, hgrown, ← commitments_concat] at hrecords
  · rw [hstep.failure_iff hop, hbefore.isDecided_eq_false, hgrown]

/-- Operations on two demands, of which a second assumption, a second commitment and a score have to
fail. -/
def interleaved : List Operation :=
  [.assume "a" (.eastern "a1" 3.0), .commit "a" (.eastern "a2" 1.0),
    .assume "a" (.eastern "a1" 3.0), .retract "a", .assume "b" (.eastern "b2" 1.0),
    .commit "b" (.eastern "b1" 1.0), .commit "a" (.eastern "a1" 3.0),
    .compute ⟨.minimize, .sum, [.leaf .field { demand := some "a", key := some "speed" } {}]⟩ {},
    .refreshTotals]

theorem records_of_perform_interleaved :
    ∃ steps, ((perform {} interleaved).run Engine.recorded ()).result = some steps ∧
      steps.map (fun step => step.failure.isSome) =
        [false, false, true, false, false, false, true, true, false] ∧
      ∃ last ∈ steps.getLast?,
        last.path.Records [("a", .eastern "a2" 1.0), ("b", .eastern "b1" 1.0)] ∧
        last.path.trace = "a:a2>b:b1>" := by
  obtain ⟨steps, h, hne⟩ : ∃ steps,
      ((perform {} interleaved).run Engine.recorded ()).result = some steps ∧ steps ≠ [] :=
    ⟨_, rfl, List.cons_ne_nil _ _⟩
  obtain ⟨-, hsteps⟩ := records_of_perform h
  obtain ⟨hrecords, -⟩ :=
    hsteps steps.dropLast (steps.getLast hne) [] (List.dropLast_append_getLast hne).symm
  rw [List.dropLast_append_getLast hne] at hrecords
  have hcommitments : commitments steps = [("a", .eastern "a2" 1.0), ("b", .eastern "b1" 1.0)] := by
    cases h
    rfl
  rw [hcommitments] at hrecords
  refine ⟨steps, h, ?_, steps.getLast hne, List.getLast?_eq_some_getLast hne, hrecords, ?_⟩
  · cases h
    rfl
  · rw [hrecords.trace]
    rfl

end Path

end Placement
