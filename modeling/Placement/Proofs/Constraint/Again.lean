import Placement.Proofs.Constraint.Failure
import Placement.Proofs.Constraint.Verdict
import Placement.Proofs.Problem

/-!
# Constraints applied twice

Against the engine that answers from the records, a constraint lets through again what it has let
through. A test that has been passed is passed again, and a capacity that nothing in the pool has is
not found in the same pool the next time. A hardware constraint meets the same requirements again,
as those who are left are the ones who suit them, but it records its choices once more.
-/

namespace Placement

open Solving

/-! ## Hardware -/

namespace Recorded

variable {rs : List HpaRequirement} {pool out : List Candidate} {j k : Nat}

theorem Furthest.unique (hj : Furthest rs pool j) (hk : Furthest rs pool k) : j = k := by
  have hle : ∀ {i l}, Furthest rs pool i → Furthest rs pool l → i ≤ l := by
    intro i l hi hl
    by_cases hzero : i = 0
    · rw [hzero]
      exact Nat.zero_le l
    · exact hl.most i hi.le (hi.reached hzero)
  exact Nat.le_antisymm (hle hj hk) (hle hk hj)

theorem EquipsAll.suitsAll (h : EquipsAll rs pool out) {y : Candidate} (hy : y ∈ out) :
    ∃ x ∈ pool, Equipped rs x y ∧ SuitsAll rs y := by
  have hleaves : Leaves rs (pool.filter fun x => SuitsAll rs x) out := ⟨_, List.Sublist.refl _, h⟩
  obtain ⟨x, hx, hxy⟩ := hleaves.exists_mem hy
  obtain ⟨hx, hsuits⟩ := List.mem_filter.1 hx
  exact ⟨x, hx, hxy, fun r hr => hxy.suits_iff.2 (of_decide_eq_true hsuits r hr)⟩

/-- Those who are left get as far as the pool did: they suit what was met, and what was not met
suits them no more than it did before the choices were recorded. -/
theorem Furthest.of_equipsAll (h : Furthest rs pool k) (hout : EquipsAll (rs.take k) pool out) :
    Furthest rs out k := by
  refine ⟨h.le, fun hk => ?_, fun j hj hsuits => ?_⟩
  · obtain ⟨x, hx, hsuits⟩ := h.reached hk
    have hmem : x ∈ pool.filter fun x => SuitsAll (rs.take k) x :=
      List.mem_filter.2 ⟨hx, decide_eq_true hsuits⟩
    have hne : out ≠ [] := by
      rintro rfl
      have hnone := List.length_eq_zero_iff.1 hout.length_eq
      rw [hnone] at hmem
      cases hmem
    obtain ⟨y, hy⟩ := List.exists_mem_of_ne_nil out hne
    obtain ⟨-, -, -, hsuits⟩ := hout.suitsAll hy
    exact ⟨y, hy, hsuits⟩
  · obtain ⟨y, hy, hsuits⟩ := hsuits
    obtain ⟨x, hx, hxy, -⟩ := hout.suitsAll hy
    exact h.most j hj ⟨x, hx, fun r hr => hxy.suits_iff.1 (hsuits r hr)⟩

end Recorded

namespace Constraint

open Recorded

variable {c : Constraint} {p : Path} {pool out : List Candidate} {rs : List HpaRequirement}

/-- Asked again, the requirements that were met are met, by everyone who is left. -/
theorem keepEquipped_again
    (h : (keepEquipped rs pool).outcome Engine.recorded () = some (.ok out)) :
    ∃ k out', Furthest rs pool k ∧ Furthest rs out k ∧
      (keepEquipped rs out).outcome Engine.recorded () = some (.ok out') ∧
        List.Forall₂ (Equipped (rs.take k)) out out' := by
  obtain ⟨k, kept, hfurthest, hkept, hequips, -⟩ := run_keepEquipped rs pool
  cases h.symm.trans hkept
  obtain ⟨k', out', hfurthest', hout', hequips', -⟩ := run_keepEquipped rs out
  have hleft := hfurthest.of_equipsAll hequips
  cases hfurthest'.unique hleft
  have hall : (out.filter fun y => SuitsAll (rs.take k) y) = out := by
    refine List.filter_eq_self.2 fun y hy => ?_
    obtain ⟨-, -, -, hsuits⟩ := hequips.suitsAll hy
    exact decide_eq_true hsuits
  unfold EquipsAll at hequips'
  rw [hall] at hequips'
  exact ⟨k, out', hfurthest, hleft, hout', hequips'⟩

/-! ## Capacity -/

theorem outcome_keepFitting (request : CapacityRequest) (pool : List Candidate) :
    (keepFitting request pool).outcome Engine.recorded () =
      some (.ok (if pool.filter (hasCapacity request) = [] then pool
        else pool.filter (hasCapacity request))) := by
  have hask : (ask (.vim request pool)).outcome Engine.recorded () =
      some (.ok (matched (pool.filter (hasCapacity request)))) := rfl
  refine (outcome_bind_of_ok hask).trans ?_
  cases pool.filter (hasCapacity request) with
  | nil => rfl
  | cons x xs => rfl

/-- Where nothing has the capacity the pool is left as it is, and so it is again; all others who are
left have it. -/
theorem keepFitting_again {request : CapacityRequest}
    (h : (keepFitting request pool).outcome Engine.recorded () = some (.ok out)) :
    (keepFitting request out).outcome Engine.recorded () = some (.ok out) := by
  rw [outcome_keepFitting] at h
  split at h
  · next hnone =>
    cases h
    rw [outcome_keepFitting, if_pos hnone]
  · next hsome =>
    cases h
    have hagain : (pool.filter (hasCapacity request)).filter (hasCapacity request) =
        pool.filter (hasCapacity request) := by
      rw [List.filter_filter]
      simp only [Bool.and_self]
    rw [outcome_keepFitting, hagain, if_neg hsome]

/-! ## Tests -/

/-- A distance constraint that has come to its end knows where the siblings are. -/
theorem location?_of_filter (hkind : c.kind = .distance)
    (h : (c.filter p pool).outcome Engine.recorded () = some (.ok out)) {d : String} {x : Candidate}
    (hx : (d, x) ∈ c.decidedSiblings p) : Recorded.location? x ≠ none := by
  obtain ⟨log, h, ha⟩ := (outcome_iff Engine.stateless_recorded).1 h
  unfold Constraint.kind at hkind
  unfold filter at h
  cases hrule : c.rule with
  | distance r =>
    rw [hrule] at h
    simp only [keepDistant] at h
    split at h
    · next hnone =>
      rw [hnone] at hx
      cases hx
    · obtain ⟨log₁, log₂, others, rfl, hothers, -⟩ := ends_bind_ok.1 h
      have hplaces := siblingLocations_recorded hothers (Engine.answers_append.1 ha).1
      have hmem :=
        List.mem_map_of_mem (f := fun s : String × Candidate => Recorded.location? s.2) hx
      rw [hplaces] at hmem
      obtain ⟨l, -, hl⟩ := List.mem_map.1 hmem
      exact fun hnone => Option.some_ne_none l (hl.trans hnone)
  | _ =>
    rw [hrule] at hkind
    cases hkind

/-- Where a constraint tests each candidate by itself, those who have passed pass again. -/
theorem filter_again_of_tests (hids : (pool.map Candidate.id).Nodup)
    (hkind : c.kind ≠ .hpa ∧ c.kind ≠ .vimFit)
    (h : (c.filter p pool).outcome Engine.recorded () = some (.ok out)) :
    (c.filter p out).outcome Engine.recorded () = some (.ok out) := by
  obtain ⟨log, hends, ha⟩ := (outcome_iff Engine.stateless_recorded).1 h
  have hout := filter_recorded hids hkind hends ha
  obtain ⟨r, hr⟩ := outcome_recorded (c.filter p out)
  obtain ⟨log', hends', ha'⟩ := (outcome_iff Engine.stateless_recorded).1 hr
  cases r with
  | ok out' =>
    have hids' : (out.map Candidate.id).Nodup := by
      rw [hout]
      exact hids.sublist (List.filter_sublist.map _)
    have hout' := filter_recorded hids' hkind hends' ha'
    rw [hr, hout', hout, List.filter_filter]
    simp only [Bool.and_self]
  | error e =>
    rcases filter_error hends' with hfailed | hmisses
    · exact absurd hfailed (not_failed_recorded ha')
    · obtain ⟨hdistance, d, x, hx, hnone⟩ := hmisses.exists_placeless ha'
      exact absurd hnone (location?_of_filter hdistance h hx)

/-! ## Any constraint -/

/-- Let a constraint come to its end with candidates of a pool, all of whose ids differ. Applied to
what it has let through, on the same path, it comes to its end with the same ids in the same order,
and unless it is about hardware with the same records. A hardware constraint gets as far in its
requirements as before, and leaves each candidate with the flavors that it chooses for them,
recorded once more. -/
theorem filter_again (c : Constraint) (p : Path) (hids : (pool.map Candidate.id).Nodup)
    (h : (c.filter p pool).outcome Engine.recorded () = some (.ok out)) :
    ∃ out', (c.filter p out).outcome Engine.recorded () = some (.ok out') ∧
      out'.map Candidate.id = out.map Candidate.id ∧ (c.kind ≠ .hpa → out' = out) ∧
      ∀ rs, c.rule = .hpa rs →
        ∃ k, Furthest rs pool k ∧ Furthest rs out k ∧
          List.Forall₂ (Equipped (rs.take k)) out out' := by
  by_cases hkind : c.kind = .hpa ∨ c.kind = .vimFit
  · unfold filter at h ⊢
    rcases replaces_iff.1 hkind with ⟨rs, hrule⟩ | ⟨request, hrule⟩
    · rw [hrule] at h ⊢
      obtain ⟨k, out', hpool, hleft, hout', hequipped⟩ := keepEquipped_again h
      refine ⟨out', hout', ids_of_forall₂_equipped hequipped, fun hno => ?_, fun rs' hrs' => ?_⟩
      · exact absurd (by rw [Constraint.kind, hrule]; rfl) hno
      · cases hrs'
        exact ⟨k, hpool, hleft, hequipped⟩
    · rw [hrule] at h ⊢
      refine ⟨out, keepFitting_again h, rfl, fun _ => rfl, fun rs hrs => ?_⟩
      cases hrs
  · refine ⟨out, filter_again_of_tests hids (not_or.1 hkind) h, rfl, fun _ => rfl, fun rs hrs => ?_⟩
    exact absurd (Or.inl (by rw [Constraint.kind, hrs]; rfl)) hkind

/-- Any flavor will do for the first requirement, and none does for the second. -/
def demanding : Constraint :=
  ⟨"fast", ["a"], 2,
    .hpa [⟨"vm", "vnfc", [], []⟩, ⟨"db", "vnfc", [], [⟨"basic", none, some "x86", []⟩]⟩]⟩

/-- More than anybody has. -/
def spacious : Constraint := ⟨"roomy", ["a"], 1, .vimFit ⟨none, 64.0, 0.0, 0.0⟩⟩

theorem filter_again_eastern :
    (∃ out out',
      (demanding.filter {} [.eastern "a1" 1.0, ⟨"a2", "inventory", "cloud", 1.0, []⟩]).outcome
        Engine.recorded () = some (.ok out) ∧
      (demanding.filter {} out).outcome Engine.recorded () = some (.ok out') ∧
      out'.map Candidate.id = ["a1"]) ∧
    ∃ out, (spacious.filter {} [.eastern "a1" 1.0, .eastern "a2" 1.0]).outcome Engine.recorded () =
        some (.ok out) ∧
      (spacious.filter {} out).outcome Engine.recorded () = some (.ok out) ∧
      out.map Candidate.id = ["a1", "a2"] := by
  constructor
  · obtain ⟨out, hout, hids⟩ : ∃ out,
        (demanding.filter {} [.eastern "a1" 1.0, ⟨"a2", "inventory", "cloud", 1.0, []⟩]).outcome
          Engine.recorded () = some (.ok out) ∧ out.map Candidate.id = ["a1"] :=
      ⟨_, rfl, rfl⟩
    obtain ⟨out', hout', hids', -⟩ := filter_again demanding {} (by decide) hout
    exact ⟨out, out', hout, hout', hids'.trans hids⟩
  · obtain ⟨out, hout, hids⟩ : ∃ out,
        (spacious.filter {} [.eastern "a1" 1.0, .eastern "a2" 1.0]).outcome
          Engine.recorded () = some (.ok out) ∧ out.map Candidate.id = ["a1", "a2"] :=
      ⟨_, rfl, rfl⟩
    obtain ⟨out', hout', -, hsame, -⟩ := filter_again spacious {} (by decide) hout
    cases hsame (by decide)
    exact ⟨out, hout, hout', hids⟩

end Constraint

end Placement
