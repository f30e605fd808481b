import Mathlib.Data.List.Basic
import Placement.Proofs.Constraint.WellFormed
import Placement.Proofs.Path

/-!
# The scope of a constraint

What is checked when a constraint is built from its descriptor, and which decisions in its scope a
constraint sees.
-/

namespace Placement

/-- The properties of a kind are read as a rule of that kind. -/
theorem Rule.read_kind {k : Kind} {properties : Json} {rule : Rule}
    (h : Rule.read k properties = .ok rule) :
    rule.kind = k := by
  cases k with
  | attributes =>
    obtain ⟨evaluate, -, rfl⟩ := (except_map_ok _ _ _).1 h
    rfl
  | threshold =>
    obtain ⟨⟨key, bound, operator⟩, -, h⟩ := (except_bind_ok _ _ _).1 h
    simp only at h
    split at h
    · cases h
      rfl
    · cases h
  | distance =>
    obtain ⟨spec, -, h⟩ := (except_bind_ok _ _ _).1 h
    obtain ⟨r, -, h⟩ := (except_bind_ok _ _ _).1 h
    split at h
    · cases h
      rfl
    · cases h
  | aggregation =>
    obtain ⟨rules, -, rfl⟩ := (except_map_ok _ _ _).1 h
    rfl
  | hpa =>
    obtain ⟨requirements, -, rfl⟩ := (except_map_ok _ _ _).1 h
    rfl
  | vimFit =>
    obtain ⟨⟨controller, request⟩, -, h⟩ := (except_bind_ok _ _ _).1 h
    simp only at h
    split at h
    · cases h
    · cases h
      rfl
  | service =>
    obtain ⟨⟨controller, inventoryType, request, cost⟩, -, h⟩ := (except_bind_ok _ _ _).1 h
    simp only at h
    split at h
    · cases h
    · cases h
      rfl
  | zone =>
    obtain ⟨⟨qualifier, category⟩, -, h⟩ := (except_bind_ok _ _ _).1 h
    simp only at h
    split at h
    · cases h
    · cases h
      rfl

namespace Constraint

variable {c : Constraint} {p q : Path} {d : String} {x : Candidate}

theorem build_iff {spec : ConstraintSpec} : Constraint.build spec = .ok c ↔
    ∃ kind rule, Kind.ofTag? spec.kind = some kind ∧ checkScope kind spec.demands = .ok () ∧
      Rule.read kind spec.properties = .ok rule ∧
      c = { name := spec.name
            demands := spec.demands
            priority := spec.priority.getD kind.defaultPriority
            rule } := by
  unfold Constraint.build
  constructor
  · intro h
    split at h
    · cases h
    · next kind hkind =>
      rcases hscope : checkScope kind spec.demands with flaw | ⟨⟨⟩⟩ <;> rw [hscope] at h
      · cases h
      · rcases hrule : Rule.read kind spec.properties with flaw | rule <;> rw [hrule] at h
        · cases h
        · cases h
          exact ⟨kind, rule, hkind, hscope, hrule, rfl⟩
  · rintro ⟨kind, rule, hkind, hscope, hrule, rfl⟩
    simp only [hkind, hscope, hrule]
    rfl

theorem build_ok {spec : ConstraintSpec} (h : Constraint.build spec = .ok c) :
    ∃ kind, Kind.ofTag? spec.kind = some kind ∧ checkScope kind spec.demands = .ok () ∧
      Rule.read kind spec.properties = .ok c.rule ∧ c.demands = spec.demands := by
  obtain ⟨kind, rule, hkind, hscope, hrule, rfl⟩ := build_iff.1 h
  exact ⟨kind, hkind, hscope, hrule, rfl⟩

/-- A constraint that compares demands has two of them in scope. -/
theorem exists_two_of_build {spec : ConstraintSpec} (h : Constraint.build spec = .ok c)
    (hkind : c.kind.comparesDemands = true) : ∃ d ∈ c.demands, ∃ e ∈ c.demands, d ≠ e := by
  obtain ⟨kind, -, hscope, hrule, hdemands⟩ := build_ok h
  rw [hdemands]
  refine ((kind.decides_checkScope _).ok.1 ⟨_, hscope⟩).two ?_
  rwa [← Rule.read_kind hrule]

/-! ## Siblings -/

theorem mem_decidedSiblings :
    (d, x) ∈ c.decidedSiblings p ↔ d ∈ c.demands ∧ some d ≠ p.current ∧ p.decided d = some x := by
  unfold decidedSiblings
  rw [List.mem_filterMap]
  constructor
  · rintro ⟨e, he, hx⟩
    obtain ⟨y, hy, hpair⟩ := Option.map_eq_some_iff.1 hx
    cases hpair
    obtain ⟨hd, hcurrent⟩ := List.mem_filter.1 he
    exact ⟨hd, by simpa using hcurrent, hy⟩
  · rintro ⟨hd, hcurrent, hx⟩
    refine ⟨d, List.mem_filter.2 ⟨hd, by simpa using hcurrent⟩, ?_⟩
    rw [hx]
    rfl

/-! ## What is seen of a path -/

/-- The second path shows the constraint what the first one does: the demand under resolution, and
of the demands in scope which of them are committed and to what. -/
structure SeesAlike (c : Constraint) (p q : Path) : Prop where
  current : q.current = p.current
  isDecided : ∀ d ∈ c.demands, q.isDecided d = p.isDecided d
  decided : ∀ d ∈ c.demands, q.decided d = p.decided d

namespace SeesAlike

theorem of_committed (hfixed : q.fixed = p.fixed) (hcommitted : q.committed = p.committed)
    (hcurrent : q.current = p.current) : c.SeesAlike p q :=
  ⟨hcurrent, fun d _ => by unfold Path.isDecided; rw [hfixed],
    fun d _ => Path.decided_congr hcommitted d⟩

theorem decidedSiblings (h : c.SeesAlike p q) : c.decidedSiblings q = c.decidedSiblings p := by
  unfold Constraint.decidedSiblings
  rw [h.current]
  refine List.filterMap_congr fun d hd => ?_
  rw [h.decided d (List.mem_of_mem_filter hd)]

theorem lastToResolve (h : c.SeesAlike p q) : c.lastToResolve q = c.lastToResolve p := by
  have hopen : (c.demands.filter fun d => !q.isDecided d) =
      c.demands.filter fun d => !p.isDecided d :=
    List.filter_congr fun d hd => by rw [h.isDecided d hd]
  unfold Constraint.lastToResolve
  rw [h.current, hopen]

theorem members (h : c.SeesAlike p q) (current : String) (x : Candidate) :
    c.members q current x = c.members p current x := by
  unfold Constraint.members
  refine List.filterMap_congr fun d hd => ?_
  rw [h.decided d hd]

end SeesAlike

end Constraint

end Placement
