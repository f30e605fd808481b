import Placement.Proofs.Objective.WellFormed

/-!
# The leaves of an objective

What the building of an objective checks is a property of its leaves: their measures take the
parameters that stand there, and every demand and location that a leaf names is in scope.
-/

namespace Placement

theorem Measure.accepts_referenced {f : Measure} {ps : Params} (h : f.accepts ps = true) :
    ps.referenced ≠ [] := by
  unfold Params.referenced
  intro hnil
  obtain ⟨hd, hds⟩ := List.append_eq_nil_iff.1 hnil
  have hnone : ps.demand = none := by simpa using hd
  cases f with
  | distance =>
    have hlen : ps.location.toList.length ≤ 1 := by cases ps.location <;> simp
    simp only [accepts, Params.referenced, hd, hds, List.append_nil, List.length_nil,
      beq_iff_eq] at h
    omega
  | latency => simp [accepts, hnone] at h
  | field => simp [accepts, hnone] at h
  | cost => simp [accepts, hnone] at h

namespace Term

mutual
/-- The measures at the leaves of a term, each with its parameters. -/
def leaves : Term → List (Measure × Params)
  | leaf f ps _ => [(f, ps)]
  | node _ ts _ => leavesAll ts

def leavesAll : List Term → List (Measure × Params)
  | [] => []
  | t :: ts => leaves t ++ leavesAll ts
end

mutual
theorem mem_referenced {d : String} :
    ∀ {t : Term}, d ∈ referenced t ↔ ∃ l ∈ leaves t, d ∈ l.2.referenced
  | leaf f ps scale => by simp [referenced, leaves]
  | node o ts scale => by
    rw [referenced, leaves]
    exact mem_referencedAll

theorem mem_referencedAll {d : String} :
    ∀ {ts : List Term}, d ∈ referencedAll ts ↔ ∃ l ∈ leavesAll ts, d ∈ l.2.referenced
  | [] => by simp [referencedAll, leavesAll]
  | t :: ts => by
    rw [referencedAll, leavesAll, List.mem_append, mem_referenced, mem_referencedAll]
    simp only [List.mem_append, or_and_right, exists_or]
end

end Term

/-- A leaf that the building lets through. -/
structure Scope.Allows (s : Scope) (l : Measure × Params) : Prop where
  shape : l.1.accepts l.2 = true
  demands : ∀ d ∈ l.2.referenced, d ∈ s.demands
  location : ∀ name, l.2.location = some name → (Table.get? s.locations name).isSome = true

/-- No leaf is about nothing. -/
theorem Scope.Allows.exists_referenced {s : Scope} {l : Measure × Params} (h : s.Allows l) :
    ∃ d, d ∈ l.2.referenced :=
  List.exists_mem_of_ne_nil _ (Measure.accepts_referenced h.shape)

namespace Term

variable {s : Scope}

theorem buildLeaf_allows {name : String} {ps : Params} {scale : Scale} {t : Term}
    (h : buildLeaf s name ps scale = .ok t) : ∀ l ∈ leaves t, s.Allows l := by
  obtain ⟨f, -, h⟩ := (except_bind_ok _ _ _).1 h
  obtain ⟨⟨⟩, hshape, h⟩ := (except_bind_ok _ _ _).1 h
  obtain ⟨⟨⟩, hdemands, h⟩ := (except_bind_ok _ _ _).1 h
  obtain ⟨⟨⟩, hlocation, h⟩ := (except_bind_ok _ _ _).1 h
  cases h
  intro l hl
  rw [leaves, List.mem_singleton] at hl
  subst hl
  refine ⟨?_, (s.decides_checkDemands _).ok.1 ⟨_, hdemands⟩, fun name hn => Table.get?_isSome.2 ?_⟩
  · exact Measure.accepts_iff.2 ((f.decides_validate ps).ok.1 ⟨_, hshape⟩)
  · exact (s.decides_checkLocation _).ok.1 ⟨_, hlocation⟩ name hn

mutual
theorem buildOperation_allows : ∀ {spec : OperationSpec} {o : Operator} {ts : List Term},
    buildOperation s spec = .ok (o, ts) → ∀ l ∈ leavesAll ts, s.Allows l
  | .mk operator operands, o, ts, h => by
    rw [buildOperation] at h
    obtain ⟨o', -, h⟩ := (except_bind_ok _ _ _).1 h
    simp only at h
    split at h
    · cases h
    · obtain ⟨ts', hts, h⟩ := (except_bind_ok _ _ _).1 h
      cases h
      exact buildOperands_allows hts

theorem buildOperands_allows : ∀ {specs : List OperandSpec} {ts : List Term},
    buildOperands s specs = .ok ts → ∀ l ∈ leavesAll ts, s.Allows l
  | [], ts, h => by
    rw [buildOperands] at h
    cases h
    simp [leavesAll]
  | spec :: specs, ts, h => by
    rw [buildOperands] at h
    obtain ⟨t, ht, h⟩ := (except_bind_ok _ _ _).1 h
    obtain ⟨ts', hts, h⟩ := (except_bind_ok _ _ _).1 h
    cases h
    intro l hl
    rw [leavesAll, List.mem_append] at hl
    rcases hl with hl | hl
    · exact build_allows ht l hl
    · exact buildOperands_allows hts l hl

theorem build_allows : ∀ {spec : OperandSpec} {t : Term}, build s spec = .ok t →
    ∀ l ∈ leaves t, s.Allows l
  | .mk function params operation scale, t, h => by
    unfold build at h
    obtain ⟨-, -, h⟩ := (except_bind_ok _ _ _).1 h
    split at h
    · exact buildLeaf_allows h
    · next nested =>
      obtain ⟨⟨o, ts⟩, hts, h⟩ := (except_bind_ok _ _ _).1 h
      cases h
      rw [leaves]
      exact buildOperation_allows hts
    · cases h
end

end Term

/-- Every leaf of an objective that was built is one that the building lets through. -/
theorem Objective.build_allows {s : Scope} {spec : ObjectiveSpec} {o : Objective}
    (h : Objective.build s spec = .ok o) :
    ∀ l ∈ Term.leavesAll o.operands, s.Allows l := by
  obtain ⟨⟨operator, operands⟩, hts, h⟩ := (except_bind_ok _ _ _).1 h
  cases h
  exact Term.buildOperation_allows hts

end Placement
