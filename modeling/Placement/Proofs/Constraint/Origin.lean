import Placement.Problem
import Placement.Proofs.Engine.Conversation

/-!
# Where survivors come from

The engine may answer a question with records of its own. A constraint that is neither on hardware
nor on capacity looks up in the answer the candidates that it has asked about, so what it lets
through stands in the pool, in the order of the pool; only the answer to a service question can put
another record in the place of a candidate.
-/

namespace Placement

open Solving

/-- The record stands in an answer to a service question. -/
def Confirmed (log : List Exchange) (x : Candidate) : Prop :=
  ∃ lookup given confirmed, (⟨.service lookup given, .ok (some confirmed)⟩ : Exchange) ∈ log ∧
    x ∈ confirmed

theorem Confirmed.mono {log log' : List Exchange} {x : Candidate} (hsub : log ⊆ log')
    (h : Confirmed log x) :
    Confirmed log' x := by
  obtain ⟨lookup, given, confirmed, hmem, hx⟩ := h
  exact ⟨lookup, given, confirmed, hsub hmem, hx⟩

/-- What replaces candidates by records with their ids keeps the ids in their order. -/
theorem sublist_ids_filterMap {f : Candidate → Option Candidate}
    (hf : ∀ x y, f x = some y → y.id = x.id) (pool : List Candidate) :
    ((pool.filterMap f).map Candidate.id).Sublist (pool.map Candidate.id) := by
  induction pool with
  | nil => exact List.Sublist.refl _
  | cons x pool ih =>
    rw [List.filterMap_cons]
    cases hx : f x with
    | none => exact ih.cons _
    | some y =>
      rw [List.map_cons, List.map_cons, hf x y hx]
      exact ih.cons_cons _

/-- Candidates of the pool in the order of the pool, each with its own record or with one that a
service has confirmed. -/
structure Retains (log : List Exchange) (pool out : List Candidate) : Prop where
  ids : (out.map Candidate.id).Sublist (pool.map Candidate.id)
  records : ∀ y ∈ out, ∃ x ∈ pool, y.id = x.id ∧ (y = x ∨ Confirmed log y)

namespace Retains

variable {log log' : List Exchange} {pool kept out : List Candidate}

theorem of_sublist (h : out.Sublist pool) : Retains log pool out :=
  ⟨h.map _, fun y hy => ⟨y, h.subset hy, rfl, .inl rfl⟩⟩

theorem refl (pool : List Candidate) : Retains log pool pool := of_sublist (List.Sublist.refl pool)

theorem filter (f : Candidate → Bool) : Retains log pool (pool.filter f) :=
  of_sublist List.filter_sublist

theorem trans (h : Retains log pool kept) (h' : Retains log' kept out) :
    Retains (log ++ log') pool out := by
  refine ⟨h'.ids.trans h.ids, fun z hz => ?_⟩
  obtain ⟨y, hy, hzy, hrecord⟩ := h'.records z hz
  obtain ⟨x, hx, hyx, hrecord'⟩ := h.records y hy
  refine ⟨x, hx, hzy.trans hyx, ?_⟩
  rcases hrecord with rfl | hconfirmed
  · exact hrecord'.imp id (Confirmed.mono (List.subset_append_left _ _))
  · exact .inr (hconfirmed.mono (List.subset_append_right _ _))

end Retains

namespace Constraint

variable {c : Constraint} {path : Path} {pool out : List Candidate} {log : List Exchange}

theorem keepNear_sublist {r : DistanceRule} {others : List Location} :
    ∀ {pool out : List Candidate} {log : List Exchange},
      Ends (keepNear r others pool) log (.ok out) → out.Sublist pool
  | [], out, log, h => by
    cases (ends_pure.1 h).2
    exact List.Sublist.refl _
  | x :: pool, out, log, h => by
    unfold keepNear at h
    obtain ⟨log₁, log₂, place, -, -, h⟩ := ends_bind_ok.1 h
    obtain ⟨log₃, log₄, rest, -, hrest, h⟩ := ends_bind_ok.1 h
    have ih := keepNear_sublist hrest
    cases place with
    | none =>
      cases (ends_pure.1 h).2
      exact ih.cons x
    | some l =>
      cases (ends_pure.1 h).2
      split
      · exact ih.cons_cons x
      · exact ih.cons x

theorem retains_keepDistant {r : DistanceRule}
    (h : Ends (c.keepDistant r path pool) log (.ok out)) :
    Retains log pool out := by
  unfold keepDistant at h
  split at h
  · cases (ends_pure.1 h).2
    exact .refl pool
  · obtain ⟨log₁, log₂, others, -, -, h⟩ := ends_bind_ok.1 h
    exact .of_sublist (keepNear_sublist h)

theorem retains_keepAttributed {evaluate : Table Json}
    (h : Ends (keepAttributed evaluate path pool) log (.ok out)) :
    Retains log pool out := by
  unfold keepAttributed at h
  obtain ⟨log₁, log₂, matched, -, -, h⟩ := ends_bind_ok.1 h
  cases (ends_pure.1 h).2
  exact .filter _

theorem retains_keepAggregated (rules : List AggregationRule) :
    Retains log pool (c.keepAggregated rules path pool) := by
  unfold keepAggregated
  split
  · exact .refl pool
  · exact .filter _

theorem retains_keepZoned (q : Qualifier) (category : String) :
    Retains log pool (c.keepZoned q category path pool) := by
  unfold keepZoned
  split
  · exact .refl pool
  · exact .filter _

/-! ## Services -/

theorem lastRecord?_eq_some {records : List Candidate} {id : String} {y : Candidate}
    (h : lastRecord? records id = some y) : y ∈ records ∧ y.id = id :=
  ⟨List.mem_reverse.1 (List.mem_of_find?_eq_some h), eq_of_beq (List.find?_some h :)⟩

/-- What stands for a candidate after the answer: a record with its id. -/
theorem id_of_confirmed {inventoryType : String} {confirmed : List Candidate} {x y : Candidate}
    (h : (if x.inventoryType = inventoryType then lastRecord? confirmed x.id else some x) =
      some y) :
    y.id = x.id ∧ (y = x ∨ y ∈ confirmed) := by
  split at h
  · obtain ⟨hmem, hid⟩ := lastRecord?_eq_some h
    exact ⟨hid, .inr hmem⟩
  · cases h
    exact ⟨rfl, .inl rfl⟩

theorem retains_takeConfirmed {inventoryType : String} {lookup : ServiceLookup}
    {given : List Candidate} {answer : Option (List Candidate)} (pool : List Candidate) :
    Retains [⟨.service lookup given, .ok answer⟩] pool
      (takeConfirmed inventoryType (answer.getD []) pool) := by
  refine ⟨sublist_ids_filterMap (fun x y h => (id_of_confirmed h).1) pool, fun y hy => ?_⟩
  obtain ⟨x, hx, hxy⟩ := List.mem_filterMap.1 hy
  obtain ⟨hid, hrecord⟩ := id_of_confirmed hxy
  refine ⟨x, hx, hid, hrecord.imp id fun hmem => ?_⟩
  cases answer with
  | none => cases hmem
  | some confirmed => exact ⟨lookup, given, confirmed, List.mem_cons_self, hmem⟩

theorem retains_keepServed {controller inventoryType : String} {request : Json} {cost : Float}
    (h : Ends (c.keepServed controller inventoryType request cost path pool) log (.ok out)) :
    Retains log pool out := by
  unfold keepServed at h
  split at h
  · cases (ends_pure.1 h).2
    exact .refl pool
  · obtain ⟨log₁, log₂, answer, rfl, hanswer, h⟩ := ends_bind_ok.1 h
    obtain ⟨rfl, hout⟩ := ends_pure.1 h
    cases hout
    rw [List.append_nil, ends_ask_ok.1 hanswer]
    exact retains_takeConfirmed pool

/-! ## Any constraint -/

theorem retains_filter (hkind : c.kind ≠ .hpa ∧ c.kind ≠ .vimFit)
    (h : Ends (c.filter path pool) log (.ok out)) :
    Retains log pool out := by
  unfold filter at h
  unfold kind at hkind
  cases hrule : c.rule with
  | attributes evaluate =>
    rw [hrule] at h
    exact retains_keepAttributed h
  | threshold key operator bound =>
    rw [hrule] at h
    cases (ends_pure.1 h).2
    exact .filter _
  | distance r =>
    rw [hrule] at h
    exact retains_keepDistant h
  | aggregation rules =>
    rw [hrule] at h
    cases (ends_pure.1 h).2
    exact retains_keepAggregated rules
  | hpa requirements =>
    rw [hrule] at hkind
    exact absurd rfl hkind.1
  | vimFit request =>
    rw [hrule] at hkind
    exact absurd rfl hkind.2
  | service controller inventoryType request cost =>
    rw [hrule] at h
    exact retains_keepServed h
  | zone qualifier category =>
    rw [hrule] at h
    cases (ends_pure.1 h).2
    exact retains_keepZoned qualifier category

end Constraint

/-- The pipeline lets through what each of its constraints does. -/
theorem retains_narrow {path : Path} {out : List Candidate} :
    ∀ {cs : List Constraint} {pool : List Candidate}
    {log : List Exchange}, (∀ c ∈ cs, c.kind ≠ .hpa ∧ c.kind ≠ .vimFit) →
      Ends (narrow path cs pool) log (.ok out) →
      Retains log pool out
  | [], pool, log, _, h => by
    cases (ends_pure.1 h).2
    exact .refl _
  | c :: cs, pool, log, hkinds, h => by
    obtain ⟨hc, hcs⟩ := List.forall_mem_cons.1 hkinds
    unfold narrow at h
    obtain ⟨log₁, log₂, kept, rfl, hkept, h⟩ := ends_bind_ok.1 h
    refine (Constraint.retains_filter hc hkept).trans ?_
    cases kept with
    | nil =>
      cases (ends_pure.1 h).2
      exact .refl []
    | cons x xs => exact retains_narrow hcs h

end Placement
