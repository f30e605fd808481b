import Placement.Problem
import Placement.Proofs.Constraint.Scope
import Placement.Proofs.Engine.Stateless

/-!
# Why a constraint fails

A constraint fails with a failure of the engine, and a distance constraint also where the engine
knows no location for a candidate that is committed to. A candidate under resolution without a
location is dropped and is no failure.
-/

namespace Placement

open Solving

namespace Constraint

variable {c : Constraint} {path : Path} {pool : List Candidate} {log : List Exchange}
  {e : SolveError}

/-- The engine has just said that it knows no location for a candidate of the list, and the error
names it. -/
def Unplaced (siblings : List (String × Candidate)) (log : List Exchange) (e : SolveError) : Prop :=
  ∃ d x, (d, x) ∈ siblings ∧ log.getLast? = some ⟨.location x, .ok none⟩ ∧
    e = .missingLocation (d ++ ":" ++ x.id)

/-- A distance constraint lacks the location of a decided sibling. -/
def MissesSibling (c : Constraint) (path : Path) (log : List Exchange) (e : SolveError) : Prop :=
  (∃ r, c.rule = .distance r) ∧ Unplaced (c.decidedSiblings path) log e

theorem Unplaced.of_suffix {siblings : List (String × Candidate)} {log' : List Exchange}
    (h : log' <:+ log) (hu : Unplaced siblings log' e) : Unplaced siblings log e := by
  obtain ⟨d, x, hx, hlast, rfl⟩ := hu
  exact ⟨d, x, hx, getLast?_of_suffix h hlast, rfl⟩

/-- Where the records answer, a sibling without a location has none in its record. -/
theorem MissesSibling.exists_placeless (h : c.MissesSibling path log e)
    (ha : Engine.recorded.Answers log) :
    c.kind = .distance ∧ ∃ d x, (d, x) ∈ c.decidedSiblings path ∧ Recorded.location? x = none := by
  obtain ⟨⟨r, hrule⟩, d, x, hx, hlast, -⟩ := h
  have hresponse := response_of_getLast? ha hlast
  injection hresponse with hnone
  exact ⟨by rw [Constraint.kind, hrule]; rfl, d, x, hx, hnone.symm⟩

theorem siblingLocations_error : ∀ {siblings : List (String × Candidate)} {log : List Exchange},
    Ends (siblingLocations siblings) log (.error e) → Failed log e ∨ Unplaced siblings log e
  | [], log, h => by
    cases (ends_pure.1 h).2
  | (d, x) :: siblings, log, h => by
    unfold siblingLocations locate at h
    rcases ends_bind_error.1 h with h | ⟨log₁, log₂, place, rfl, hplace, h⟩
    · exact .inl (failed_of_ask h)
    · cases place with
      | none =>
        obtain ⟨rfl, h⟩ := ends_throw.1 h
        cases h
        rw [ends_ask_ok.1 hplace]
        exact .inr ⟨d, x, List.mem_cons_self, rfl, rfl⟩
      | some l =>
        rcases ends_bind_error.1 h with h | ⟨log₃, log₄, ls, -, -, h⟩
        · rcases siblingLocations_error h with hfailed | ⟨d', x', hx, hlast, he⟩
          · exact .inl (hfailed.of_suffix (List.suffix_append _ _))
          · exact .inr ⟨d', x', List.mem_cons_of_mem _ hx,
              getLast?_of_suffix (List.suffix_append _ _) hlast, he⟩
        · cases (ends_pure.1 h).2

theorem keepNear_error {r : DistanceRule} {others : List Location} :
    ∀ {pool : List Candidate} {log : List Exchange},
    Ends (keepNear r others pool) log (.error e) → Failed log e
  | [], log, h => by
    cases (ends_pure.1 h).2
  | x :: pool, log, h => by
    unfold keepNear locate at h
    rcases ends_bind_error.1 h with h | ⟨log₁, log₂, place, rfl, -, h⟩
    · exact failed_of_ask h
    · rcases ends_bind_error.1 h with h | ⟨log₃, log₄, rest, -, -, h⟩
      · exact (keepNear_error h).of_suffix (List.suffix_append _ _)
      · cases place with
        | none => cases (ends_pure.1 h).2
        | some l => cases (ends_pure.1 h).2

theorem keepDistant_error {r : DistanceRule} (h : Ends (c.keepDistant r path pool) log (.error e)) :
    Failed log e ∨ Unplaced (c.decidedSiblings path) log e := by
  unfold keepDistant at h
  split at h
  · cases (ends_pure.1 h).2
  · rcases ends_bind_error.1 h with h | ⟨log₁, log₂, others, rfl, -, h⟩
    · exact siblingLocations_error h
    · exact .inl ((keepNear_error h).of_suffix (List.suffix_append _ _))

theorem keepAttributed_error {evaluate : Table Json}
    (h : Ends (keepAttributed evaluate path pool) log (.error e)) :
    Failed log e := by
  unfold keepAttributed at h
  rcases ends_bind_error.1 h with h | ⟨log₁, log₂, matched, -, -, h⟩
  · exact failed_of_ask h
  · cases (ends_pure.1 h).2

theorem keepEquipped_error :
    ∀ {rs : List HpaRequirement} {pool : List Candidate} {log : List Exchange},
    Ends (keepEquipped rs pool) log (.error e) → Failed log e
  | [], pool, log, h => by
    cases (ends_pure.1 h).2
  | r :: rs, pool, log, h => by
    unfold keepEquipped at h
    rcases ends_bind_error.1 h with h | ⟨log₁, log₂, matched, rfl, -, h⟩
    · exact failed_of_ask h
    · split at h
      · exact (keepEquipped_error h).of_suffix (List.suffix_append _ _)
      · cases (ends_pure.1 h).2

theorem keepFitting_error {request : CapacityRequest}
    (h : Ends (keepFitting request pool) log (.error e)) :
    Failed log e := by
  unfold keepFitting at h
  rcases ends_bind_error.1 h with h | ⟨log₁, log₂, fitting, -, -, h⟩
  · exact failed_of_ask h
  · split at h
    · cases (ends_pure.1 h).2
    · cases (ends_pure.1 h).2

theorem keepServed_error {controller inventoryType : String} {request : Json} {cost : Float}
    (h : Ends (c.keepServed controller inventoryType request cost path pool) log (.error e)) :
    Failed log e := by
  unfold keepServed at h
  split at h
  · cases (ends_pure.1 h).2
  · rcases ends_bind_error.1 h with h | ⟨log₁, log₂, confirmed, -, -, h⟩
    · exact failed_of_ask h
    · cases (ends_pure.1 h).2

theorem filter_error (h : Ends (c.filter path pool) log (.error e)) :
    Failed log e ∨ c.MissesSibling path log e := by
  unfold filter at h
  cases hrule : c.rule with
  | attributes evaluate => rw [hrule] at h; exact .inl (keepAttributed_error h)
  | threshold key operator bound => rw [hrule] at h; cases (ends_pure.1 h).2
  | distance r => rw [hrule] at h; exact (keepDistant_error h).imp id fun hu => ⟨⟨r, hrule⟩, hu⟩
  | aggregation rules => rw [hrule] at h; cases (ends_pure.1 h).2
  | hpa requirements => rw [hrule] at h; exact .inl (keepEquipped_error h)
  | vimFit request => rw [hrule] at h; exact .inl (keepFitting_error h)
  | service controller inventoryType request cost =>
    rw [hrule] at h; exact .inl (keepServed_error h)
  | zone qualifier category => rw [hrule] at h; cases (ends_pure.1 h).2

end Constraint

/-- The pipeline fails where one of its constraints does. -/
theorem narrow_error {path : Path} {e : SolveError} :
    ∀ {cs : List Constraint} {pool : List Candidate}
    {log : List Exchange}, Ends (narrow path cs pool) log (.error e) →
      Failed log e ∨ ∃ c ∈ cs, c.MissesSibling path log e
  | [], pool, log, h => by
    cases (ends_pure.1 h).2
  | c :: cs, pool, log, h => by
    unfold narrow at h
    rcases ends_bind_error.1 h with h | ⟨log₁, log₂, kept, rfl, -, h⟩
    · exact (Constraint.filter_error h).imp id fun hmisses => ⟨c, List.mem_cons_self, hmisses⟩
    · cases kept with
      | nil => cases (ends_pure.1 h).2
      | cons x xs =>
        rcases narrow_error h with hfailed | ⟨c', hc', hrule, hunplaced⟩
        · exact .inl (hfailed.of_suffix (List.suffix_append _ _))
        · exact .inr ⟨c', List.mem_cons_of_mem _ hc', hrule,
            hunplaced.of_suffix (List.suffix_append _ _)⟩

end Placement
