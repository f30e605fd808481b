import Mathlib.Data.List.Perm.Subperm
import Placement.Engine.Rehearsed
import Placement.Proofs.Constraint.Verdict
import Placement.Proofs.Problem

/-!
# Candidates that an answer replaces

A constraint on hardware or on capacity puts the engine's answer in the place of the candidates,
unless it is empty, and compares it with nothing. What such a constraint lets through is therefore
the last such answer as it stands. It stays within the pool against an engine that answers each
question out of the candidates that the question is about, and against no other is that certain.
-/

namespace Placement

open Solving

namespace Exchange

/-- What the exchange puts in the place of the candidates: an answer about hardware or capacity that
is not empty. -/
def replacement? : Exchange → Option (List Candidate)
  | ⟨.hpa _ _, .ok (some (x :: xs))⟩ => some (x :: xs)
  | ⟨.vim _ _, .ok (some (x :: xs))⟩ => some (x :: xs)
  | _ => none

/-- The answer names only candidates that the question is about, and none of them more often. -/
def Faithful (e : Exchange) : Prop :=
  ∀ xs, e.replacement? = some xs → (xs.map Candidate.id).Subperm (e.query.given.map Candidate.id)

end Exchange

/-- The last list put in the place of the candidates. -/
def lastReplacement? (log : List Exchange) : Option (List Candidate) :=
  (log.filterMap Exchange.replacement?).getLast?

theorem getD_lastReplacement?_cons {e : Exchange} {xs : List Candidate}
    (h : e.replacement? = some xs) (log : List Exchange) (pool : List Candidate) :
    (lastReplacement? (e :: log)).getD pool = (lastReplacement? log).getD xs := by
  unfold lastReplacement?
  rw [List.filterMap_cons_some h, List.getLast?_cons, Option.getD_some]

namespace Constraint

variable {c : Constraint} {path : Path} {pool out : List Candidate} {log : List Exchange}

/-- The last answer in the place of the pool; against faithful answers that is not more than the
pool. -/
structure Replaces (log : List Exchange) (pool out : List Candidate) : Prop where
  out_eq : out = (lastReplacement? log).getD pool
  within : (∀ e ∈ log, e.Faithful) → (out.map Candidate.id).Subperm (pool.map Candidate.id)

theorem Replaces.nil : Replaces [] pool pool := ⟨rfl, fun _ => List.Subperm.refl _⟩

/-- An exchange that replaces nothing leaves the pool. -/
theorem Replaces.of_none {e : Exchange} (h : e.replacement? = none) : Replaces [e] pool pool := by
  refine ⟨?_, fun _ => List.Subperm.refl _⟩
  unfold lastReplacement?
  rw [List.filterMap_cons_none h]
  rfl

/-- An exchange that replaces the pool hands its answer to those after it. -/
theorem Replaces.cons {e : Exchange} {xs : List Candidate} (hgiven : e.query.given = pool)
    (h : e.replacement? = some xs) (hout : Replaces log xs out) : Replaces (e :: log) pool out := by
  refine ⟨?_, fun hfaithful => ?_⟩
  · rw [getD_lastReplacement?_cons h]
    exact hout.out_eq
  · obtain ⟨he, hlog⟩ := List.forall_mem_cons.1 hfaithful
    have hxs := he xs h
    rw [hgiven] at hxs
    exact (hout.within hlog).trans hxs

theorem replaces_of_keepEquipped :
    ∀ {rs : List HpaRequirement} {pool : List Candidate} {log : List Exchange},
    Ends (keepEquipped rs pool) log (.ok out) → Replaces log pool out
  | [], pool, log, h => by
    obtain ⟨rfl, hout⟩ := ends_pure.1 h
    cases hout
    exact .nil
  | r :: rs, pool, log, h => by
    unfold keepEquipped at h
    obtain ⟨log₁, log₂, matched, rfl, hmatched, hrest⟩ := ends_bind_ok.1 h
    cases ends_ask_ok.1 hmatched
    rcases matched with _ | _ | ⟨x, xs⟩
    · obtain ⟨rfl, hout⟩ := ends_pure.1 hrest
      cases hout
      exact .of_none rfl
    · obtain ⟨rfl, hout⟩ := ends_pure.1 hrest
      cases hout
      exact .of_none rfl
    · exact .cons rfl rfl (replaces_of_keepEquipped hrest)

theorem replaces_of_keepFitting {request : CapacityRequest}
    (h : Ends (keepFitting request pool) log (.ok out)) :
    Replaces log pool out := by
  unfold keepFitting at h
  obtain ⟨log₁, log₂, fitting, rfl, hfitting, hrest⟩ := ends_bind_ok.1 h
  cases ends_ask_ok.1 hfitting
  rcases fitting with _ | _ | ⟨x, xs⟩
  · obtain ⟨rfl, hout⟩ := ends_pure.1 hrest
    cases hout
    exact .of_none rfl
  · obtain ⟨rfl, hout⟩ := ends_pure.1 hrest
    cases hout
    exact .of_none rfl
  · obtain ⟨rfl, hout⟩ := ends_pure.1 hrest
    cases hout
    exact .cons rfl rfl .nil

theorem replaces_of_filter (hkind : c.kind = .hpa ∨ c.kind = .vimFit)
    (h : Ends (c.filter path pool) log (.ok out)) :
    Replaces log pool out := by
  unfold filter at h
  rcases replaces_iff.1 hkind with ⟨rs, hrule⟩ | ⟨request, hrule⟩
  · rw [hrule] at h
    exact replaces_of_keepEquipped h
  · rw [hrule] at h
    exact replaces_of_keepFitting h

/-- Against whatever engine, a constraint on hardware or on capacity that comes to a result lets
through the last answer that was not empty, as it stands, or the pool if there was none. If every
such answer names only candidates that it was asked about, and none of them more often, then so does
the result: each of its ids is one of the pool, and no id is more often in it than in the pool. -/
theorem filter_by_answers {σ : Type} (hkind : c.kind = .hpa ∨ c.kind = .vimFit)
    (engine : Engine σ) (s : σ) (h : (c.filter path pool).outcome engine s = some (.ok out)) :
    out = (lastReplacement? ((c.filter path pool).run.exchanges engine s)).getD pool ∧
      ((∀ e ∈ (c.filter path pool).run.exchanges engine s, e.Faithful) →
        (∀ y ∈ out, ∃ x ∈ pool, x.id = y.id) ∧
          ∀ id, (out.map Candidate.id).count id ≤ (pool.map Candidate.id).count id) := by
  obtain ⟨hout, hwithin⟩ := replaces_of_filter hkind (ends_of_outcome h).1
  refine ⟨hout, fun hfaithful => ?_⟩
  have hsubperm := hwithin hfaithful
  exact ⟨fun y hy => List.mem_map.1 (hsubperm.subset (List.mem_map_of_mem hy)), hsubperm.count_le⟩

/-! ## Hardware, then capacity -/

def equipped : Constraint := ⟨"fast", ["a"], 2, .hpa [⟨"vm", "vnfc", [], []⟩]⟩

def roomy : Constraint := ⟨"roomy", ["a"], 1, .vimFit ⟨none, 1.0, 0.0, 0.0⟩⟩

/-- The answer from the records is faithful. -/
theorem filter_by_answers_equipped :
    ∃ out, (equipped.filter {} [.eastern "a1" 1.0]).outcome Engine.recorded () = some (.ok out) ∧
      out.map Candidate.id = ["a1"] ∧
      ∀ y ∈ out, ∃ x ∈ [Candidate.eastern "a1" 1.0], x.id = y.id := by
  obtain ⟨xs, hlog, hids⟩ : ∃ xs,
      (equipped.filter {} [.eastern "a1" 1.0]).run.exchanges Engine.recorded () =
        [⟨.hpa ⟨"vm", "vnfc", [], []⟩ [.eastern "a1" 1.0], .ok (some xs)⟩] ∧
      xs.map Candidate.id = ["a1"] :=
    ⟨_, rfl, rfl⟩
  obtain ⟨out, houtcome, hout⟩ : ∃ out,
      (equipped.filter {} [.eastern "a1" 1.0]).outcome Engine.recorded () = some (.ok out) ∧
      out.map Candidate.id = ["a1"] :=
    ⟨_, rfl, rfl⟩
  obtain ⟨-, hwithin⟩ := filter_by_answers (.inl rfl) Engine.recorded () houtcome
  refine ⟨out, houtcome, hout, (hwithin fun e he => ?_).1⟩
  rw [hlog, List.mem_singleton] at he
  subst he
  intro ys hys
  cases xs with
  | nil => cases hys
  | cons x xs =>
    cases hys
    rw [hids]
    exact List.Subperm.refl _

/-- The engine answers with a candidate that was not in the pool, and with the one of the pool
twice. -/
theorem filter_lets_through_others :
    build ⟨"fast", "hpa", ["a"], none,
        .object [("evaluate", .array [.object [("id", .string "vm"), ("type", .string "vnfc")]])]⟩ =
          .ok equipped ∧
    build ⟨"roomy", "vim_fit", ["a"], none, .object [("request", .object [("vCPUs", .int 1)])]⟩ =
      .ok roomy ∧
    ∀ c, c = equipped ∨ c = roomy →
      ∃ out, (c.filter {} [.eastern "a1" 1.0]).outcome (Engine.rehearsed ⟨[], [], []⟩)
        [.candidates [.eastern "a1" 1.0, .eastern "x" 1.0, .eastern "a1" 1.0]] = some (.ok out) ∧
      (∃ y ∈ out, ∀ x ∈ [Candidate.eastern "a1" 1.0], x.id ≠ y.id) ∧
      ([Candidate.eastern "a1" 1.0].map Candidate.id).count "a1" <
        (out.map Candidate.id).count "a1" := by
  refine ⟨rfl, rfl, fun c hc =>
    ⟨[.eastern "a1" 1.0, .eastern "x" 1.0, .eastern "a1" 1.0], ?_, ?_, by decide⟩⟩
  · rcases hc with rfl | rfl
    · rfl
    · rfl
  · exact ⟨.eastern "x" 1.0, by simp, by decide⟩

end Constraint

end Placement
