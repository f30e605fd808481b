import Placement.Proofs.Engine.Conversation
import Placement.Proofs.Objective.Leaves

/-!
# Why a score fails

On an active leaf that the building let through, a measure finds every decision, location and
argument it asks for. What is left to fail is the engine, and a record that lacks what the measure
reads, which is a mismatch of the candidate.
-/

namespace Placement

open Solving

variable {a : Atlas} {p : Path} {log : List Exchange} {e : SolveError}

namespace Measure

variable {f : Measure} {ps : Params} {d : String}

theorem decided_total (h : (p.decision? d).isSome = true) : ∃ c, decided p d = .ok c := by
  obtain ⟨c, hc⟩ := Option.isSome_iff_exists.1 h
  unfold decided
  rw [hc]
  exact ⟨c, rfl⟩

theorem subject_total (hactive : ps.isActive p = true) (hdemand : ps.demand.isSome = true) :
    ∃ c, f.subject p ps = .ok c := by
  obtain ⟨d, hd⟩ := Option.isSome_iff_exists.1 hdemand
  have hmem : d ∈ ps.referenced := by simp [Params.referenced, hd]
  unfold subject
  rw [hd]
  exact decided_total (List.all_eq_true.1 hactive d hmem)

theorem namedPlaces_total (name : Option String)
    (h : ∀ n, name = some n → (Table.get? a.locations n).isSome = true) :
    ∃ ls, namedPlaces a name = .ok ls ∧ ls.length = name.toList.length := by
  cases name with
  | none => exact ⟨[], rfl, rfl⟩
  | some n =>
    obtain ⟨l, hl⟩ := Option.isSome_iff_exists.1 (h n rfl)
    refine ⟨[l], ?_, rfl⟩
    unfold namedPlaces Atlas.location
    simp only [hl]
    rfl

theorem places_ok : ∀ {ds : List String} {log : List Exchange} {ls : List Location},
    Ends (places p ds) log (.ok ls) → ls.length = ds.length
  | [], log, ls, h => by
    cases (ends_pure.1 h).2
    rfl
  | d :: ds, log, ls, h => by
    unfold places at h
    obtain ⟨log₁, log₂, c, -, -, h⟩ := ends_bind_ok.1 h
    obtain ⟨log₃, log₄, place, -, -, h⟩ := ends_bind_ok.1 h
    cases place with
    | none => cases (ends_throw.1 h).2
    | some l =>
      obtain ⟨log₅, log₆, ls', -, hls, h⟩ := ends_bind_ok.1 h
      cases (ends_pure.1 h).2
      rw [List.length_cons, List.length_cons, places_ok hls]

theorem places_error :
    ∀ {ds : List String} {log : List Exchange}, (∀ d ∈ ds, (p.decision? d).isSome = true) →
    Ends (places p ds) log (.error e) → Failed log e ∨ e.isMismatch = true
  | [], log, _, h => by
    cases (ends_pure.1 h).2
  | d :: ds, log, hds, h => by
    obtain ⟨c, hc⟩ := decided_total (hds d List.mem_cons_self)
    unfold places at h
    rw [hc, ofExcept_ok_bind] at h
    rcases ends_bind_error.1 h with h | ⟨log₁, log₂, place, rfl, -, h⟩
    · exact .inl (failed_of_ask h)
    · cases place with
      | none =>
        obtain ⟨-, h⟩ := ends_throw.1 h
        cases h
        exact .inr rfl
      | some l =>
        rcases ends_bind_error.1 h with h | ⟨log₃, log₄, ls, -, -, h⟩
        · exact (places_error (fun e he => hds e (List.mem_cons_of_mem _ he)) h).imp
            (Failed.of_suffix (List.suffix_append _ _)) id
        · cases (ends_pure.1 h).2

/-- Two places are arguments for a distance. -/
theorem compute_distance {ls : List Location} (h : ls.length = 2) :
    ∃ x, distance.compute (ls.map .location) = .ok x := by
  match ls, h with
  | [l, l'], _ => exact ⟨l.distanceKm l', rfl⟩

theorem value_error {s : Scope} (hlocations : s.locations = a.locations)
    (hallows : s.Allows (f, ps)) (hactive : ps.isActive p = true)
    (h : Ends (f.value a p ps) log (.error e)) :
    Failed log e ∨ e.isMismatch = true := by
  obtain ⟨named, hnamed, hlength⟩ := namedPlaces_total (a := a) ps.location
    fun n hn => hlocations ▸ hallows.location n hn
  have hshape := hallows.shape
  unfold value arguments at h
  cases f with
  | distance =>
    simp only [accepts, beq_iff_eq] at hshape
    rw [hnamed] at h
    rcases ends_bind_error.1 h with h | ⟨log₁, log₂, args, -, hargs, h⟩
    · rcases ends_bind_error.1 h with h | ⟨log₁, log₂, ls, -, -, h⟩
      · exact places_error (fun d hd => List.all_eq_true.1 hactive d hd) h
      · rw [ofExcept_ok_bind] at h
        cases (ends_pure.1 h).2
    · obtain ⟨log₃, log₄, ls, -, hls, hargs⟩ := ends_bind_ok.1 hargs
      rw [ofExcept_ok_bind] at hargs
      cases (ends_pure.1 hargs).2
      have htwo : (ls ++ named).length = 2 := by
        rw [List.length_append, places_ok hls, hlength, hshape]
      obtain ⟨x, hx⟩ := compute_distance htwo
      rw [hx] at h
      cases (ends_ofExcept.1 h).2
  | latency =>
    simp only [accepts, Bool.and_eq_true] at hshape
    obtain ⟨c, hc⟩ := subject_total (f := latency) hactive hshape.1.1
    rw [hc, hnamed] at h
    obtain ⟨-, h⟩ := ends_ofExcept.1 h
    cases h
  | field =>
    simp only [accepts, Bool.and_eq_true] at hshape
    obtain ⟨c, hc⟩ := subject_total (f := field) hactive hshape.1.1
    obtain ⟨key, hkey⟩ := Option.isSome_iff_exists.1 hshape.2
    rw [hc] at h
    simp only [hkey] at h
    obtain ⟨-, h⟩ := ends_ofExcept.1 h
    have hnumber : ((c.requireNumber key).mapError SolveError.record) = .error e := h.symm
    unfold Candidate.requireNumber at hnumber
    split at hnumber
    · cases hnumber
      exact .inr rfl
    · split at hnumber
      · cases hnumber
        exact .inr rfl
      · cases hnumber
  | cost =>
    simp only [accepts, Bool.and_eq_true] at hshape
    obtain ⟨c, hc⟩ := subject_total (f := cost) hactive hshape.1
    rw [hc] at h
    obtain ⟨-, h⟩ := ends_ofExcept.1 h
    cases h

end Measure

namespace Term

variable {s : Scope}

mutual
theorem evaluate_error (hlocations : s.locations = a.locations) :
    ∀ {t : Term} {log : List Exchange},
    (∀ l ∈ leaves t, s.Allows l) → Ends (evaluate a p t) log (.error e) →
      Failed log e ∨ e.isMismatch = true
  | leaf f ps scale, log, hleaves, h => by
    rw [evaluate] at h
    split at h
    · next hactive =>
      rcases ends_bind_error.1 h with h | ⟨log₁, log₂, x, -, -, h⟩
      · exact Measure.value_error hlocations (hleaves (f, ps) (by simp [leaves])) hactive h
      · cases (ends_pure.1 h).2
    · cases (ends_pure.1 h).2
  | node o ts scale, log, hleaves, h => by
    rw [evaluate] at h
    rw [leaves] at hleaves
    rcases ends_bind_error.1 h with h | ⟨log₁, log₂, xs, -, -, h⟩
    · exact values_error hlocations hleaves h
    · cases (ends_pure.1 h).2

theorem values_error (hlocations : s.locations = a.locations) :
    ∀ {ts : List Term} {log : List Exchange},
    (∀ l ∈ leavesAll ts, s.Allows l) → Ends (values a p ts) log (.error e) →
      Failed log e ∨ e.isMismatch = true
  | [], log, _, h => by
    rw [values] at h
    cases (ends_pure.1 h).2
  | t :: ts, log, hleaves, h => by
    rw [values] at h
    rw [leavesAll] at hleaves
    obtain ⟨ht, hts⟩ := List.forall_mem_append.1 hleaves
    rcases ends_bind_error.1 h with h | ⟨log₁, log₂, x, rfl, -, h⟩
    · exact evaluate_error hlocations ht h
    · rcases ends_bind_error.1 h with h | ⟨log₃, log₄, xs, rfl, -, h⟩
      · exact (values_error hlocations hts h).imp (Failed.of_suffix (List.suffix_append _ _)) id
      · cases (ends_pure.1 h).2
end

end Term

/-- A path that cannot be scored by an objective that was built has a candidate whose record lacks
what the objective reads, unless the engine failed. -/
theorem Objective.evaluate_error {o : Objective} {s : Scope}
    (hlocations : s.locations = a.locations) (hleaves : ∀ l ∈ Term.leavesAll o.operands, s.Allows l)
    (h : Ends (o.evaluate a p) log (.error e)) :
    Failed log e ∨ e.isMismatch = true := by
  unfold evaluate at h
  rcases ends_bind_error.1 h with h | ⟨log₁, log₂, xs, -, -, h⟩
  · exact Term.values_error hlocations hleaves h
  · cases (ends_pure.1 h).2

end Placement
