import Placement.Proofs.Constraint.Passes
import Placement.Proofs.Path

/-!
# What a constraint means for an assignment

`HoldsOn` says what a constraint promises about a whole assignment, demand by demand or pair by
pair. A search tests each candidate once, when it is committed, against the commitments before it;
`TestedOn` says that all these tests were passed. The tests of two demands meet in the later one, so
that they add up to what the constraint means.
-/

namespace Placement

/-! ## The order of commitments -/

namespace Path

variable {p : Path} {d e : String} {x : Candidate}

/-- `d` is committed before `e`. -/
def Precedes (p : Path) (d e : String) : Prop :=
  ∃ pre x post, p.committed = pre ++ (e, x) :: post ∧ d ∈ pre.map Prod.fst

theorem exists_split (hd : d ∈ p.committed.map Prod.fst) :
    ∃ pre x post, p.committed = pre ++ (d, x) :: post := by
  obtain ⟨⟨d', x⟩, hmem, rfl⟩ := List.mem_map.1 hd
  obtain ⟨pre, post, hsplit⟩ := List.append_of_mem hmem
  exact ⟨pre, x, post, hsplit⟩

theorem not_mem_of_split (hnames : (p.committed.map Prod.fst).Nodup)
    {pre post : List (String × Candidate)} (h : p.committed = pre ++ (d, x) :: post) :
    d ∉ pre.map Prod.fst := by
  rw [h, List.map_append, List.map_cons] at hnames
  exact fun hm => (List.nodup_append.1 hnames).2.2 _ hm _ List.mem_cons_self rfl

/-- A demand that is committed has one place in the order, and the candidate there is the one
decided. -/
theorem split_decided (hnames : (p.committed.map Prod.fst).Nodup)
    (hd : d ∈ p.committed.map Prod.fst) :
    ∃ pre x post, p.committed = pre ++ (d, x) :: post ∧ d ∉ pre.map Prod.fst ∧
      p.decided d = some x := by
  obtain ⟨pre, x, post, hsplit⟩ := exists_split hd
  have hfresh := not_mem_of_split hnames hsplit
  exact ⟨pre, x, post, hsplit, hfresh, decided_of_split hsplit⟩

/-- What precedes a demand is committed before its place in the order. -/
theorem Precedes.mem_before (h : p.Precedes d e) (hnames : (p.committed.map Prod.fst).Nodup)
    {pre post : List (String × Candidate)} (hsplit : p.committed = pre ++ (e, x) :: post) :
    d ∈ pre.map Prod.fst := by
  obtain ⟨pre', x', post', hsplit', hd⟩ := h
  have hfresh' := not_mem_of_split hnames hsplit'
  rw [hsplit] at hsplit'
  rcases List.append_eq_append_iff.1 hsplit' with ⟨mid, rfl, hmid⟩ | ⟨mid, rfl, -⟩
  · cases mid with
    | nil => rwa [List.append_nil] at hd
    | cons entry mid =>
      cases hmid
      rw [List.map_append, List.map_cons] at hfresh'
      exact absurd (List.mem_append_right _ List.mem_cons_self) hfresh'
  · rw [List.map_append]
    exact List.mem_append_left _ hd

theorem precedes_or (hd : d ∈ p.committed.map Prod.fst) (he : e ∈ p.committed.map Prod.fst)
    (hne : d ≠ e) :
    p.Precedes d e ∨ p.Precedes e d := by
  obtain ⟨pre, x, post, hsplit⟩ := exists_split he
  rw [hsplit, List.map_append, List.map_cons] at hd
  rcases List.mem_append.1 hd with hd | hd
  · exact .inl ⟨pre, x, post, hsplit, hd⟩
  · have hpost : d ∈ post.map Prod.fst := (List.mem_cons.1 hd).resolve_left hne
    obtain ⟨⟨d', y⟩, hmem, rfl⟩ := List.mem_map.1 hpost
    obtain ⟨mid, post', rfl⟩ := List.append_of_mem hmem
    refine .inr ⟨pre ++ (e, x) :: mid, y, post', ?_, ?_⟩
    · rw [hsplit, List.append_assoc, List.cons_append]
    · rw [List.map_append, List.map_cons]
      exact List.mem_append_right _ List.mem_cons_self

/-- The path on which a candidate is tested: the commitments before it, with its demand under
resolution. -/
def before (pre : List (String × Candidate)) (demand : String) : Path :=
  { holding pre with current := some demand }

theorem isDecided_before {pre : List (String × Candidate)} :
    (before pre e).isDecided d = true ↔ d ∈ pre.map Prod.fst := isDecided_holding

theorem exists_decided_of_before {pre : List (String × Candidate)} (hd : d ∈ pre.map Prod.fst)
    (e : String) :
    ∃ x, (before pre e).decided d = some x := by
  rw [show (before pre e).decided d = pre.lookup d from decided_holding pre d]
  exact Option.isSome_iff_exists.1 (mem_map_fst_iff.1 hd)

/-- What is decided among the first commitments stays decided. -/
theorem decided_of_before {pre rest : List (String × Candidate)} (h : p.committed = pre ++ rest)
    (hd : d ∈ pre.map Prod.fst) (e : String) : (before pre e).decided d = p.decided d := by
  obtain ⟨x, hx⟩ := exists_decided_of_before hd e
  have hlookup : pre.lookup d = some x := (decided_holding pre d).symm.trans hx
  obtain ⟨pre', post', rfl, -⟩ := List.lookup_eq_some_iff.1 hlookup
  rw [List.append_assoc, List.cons_append] at h
  rw [hx, decided_of_split h]

end Path

namespace Constraint

variable {c : Constraint} {p q : Path} {d e : String} {x y : Candidate}

/-- A test sees the commitments and the demand under resolution, and nothing else of a path. -/
theorem admits_congr (h : c.SeesAlike q p) (x : Candidate) : c.admits p x = c.admits q x := by
  unfold admits
  rw [h.decidedSiblings, h.lastToResolve]
  simp only [h.members]

/-! ## Tests along the commitments -/

/-- Every candidate committed for a demand in scope has passed the test on the commitments before
it. -/
def TestedOn (c : Constraint) (p : Path) : Prop :=
  ∀ pre d x post, p.committed = pre ++ (d, x) :: post → d ∈ c.demands →
    c.admits (Path.before pre d) x = true

/-- The later of two demands in scope was tested beside the candidate of the earlier one. -/
theorem TestedOn.sibling (h : c.TestedOn p) (hnames : (p.committed.map Prod.fst).Nodup)
    (hd : d ∈ c.demands) (he : e ∈ c.demands) (hde : p.Precedes d e) :
    ∃ pre x y, p.decided d = some x ∧ p.decided e = some y ∧
      (d, x) ∈ c.decidedSiblings (Path.before pre e) ∧
      c.admits (Path.before pre e) y = true := by
  obtain ⟨pre, y, post, hsplit, hmem⟩ := hde
  have hfresh := Path.not_mem_of_split hnames hsplit
  have hne : d ≠ e := fun heq => hfresh (heq ▸ hmem)
  obtain ⟨x, hx⟩ := Path.exists_decided_of_before hmem e
  refine ⟨pre, x, y, ?_, Path.decided_of_split hsplit, ?_, h pre e y post hsplit he⟩
  · rw [← Path.decided_of_before hsplit hmem e]
    exact hx
  · exact mem_decidedSiblings.2 ⟨hd, fun heq => hne (Option.some.inj heq), hx⟩

/-! ## Meaning -/

/-- What a constraint promises about an assignment. Constraints on hardware and capacity promise
nothing: where no candidate fits, they let all of them through. -/
def HoldsOn (c : Constraint) (p : Path) : Prop :=
  match c.rule with
  | .attributes evaluate =>
    ∀ d ∈ c.demands, ∃ x, p.decided d = some x ∧ ∀ key expected, (key, expected) ∈ evaluate →
      ∃ v, x.attribute? key = some v ∧
        match expected with
        | .array options => ∃ o ∈ options, v.looseEq o = true
        | expected => v.looseEq expected = true
  | .threshold key operator bound =>
    ∀ d ∈ c.demands, ∃ x v, p.decided d = some x ∧ x.number? key = some v ∧
      operator.holds v bound = true
  | .distance r =>
    ∀ d ∈ c.demands, ∀ e ∈ c.demands, d ≠ e → ∃ x y l m, p.decided d = some x ∧
      p.decided e = some y ∧
      Recorded.location? x = some l ∧ Recorded.location? y = some m ∧
        (p.Precedes d e → r.operator.holds (r.unit.distance m l) r.value = true)
  | .aggregation rules =>
    ∀ d ∈ c.demands, (∀ e ∈ c.demands, e ≠ d → p.Precedes e d) → c.demands.count d = 1 →
      ∀ r ∈ rules, r.accepts (c.demands.filterMap p.decided) = true
  | .hpa _ => True
  | .vimFit _ => True
  | .service controller inventoryType _ _ => ∀ d ∈ c.demands, ∃ x, p.decided d = some x ∧
      (x.inventoryType = inventoryType → ∃ controllers,
        Table.get? x.attributes "service_controllers" = some (.array controllers) ∧
        .string controller ∈ controllers)
  | .zone .same category =>
    ∃ zone, ∀ d ∈ c.demands, ∃ x, p.decided d = some x ∧ x.text? category = some zone
  | .zone .different category =>
    ∀ d ∈ c.demands, ∀ e ∈ c.demands, d ≠ e → ∃ x y, p.decided d = some x ∧
      p.decided e = some y ∧ ∀ zone, ¬ (x.text? category = some zone ∧ y.text? category = some zone)

/-- Beside an earlier sibling, the later of two demands has a zone that fits the sibling's. -/
theorem TestedOn.zones (h : c.TestedOn p) (hnames : (p.committed.map Prod.fst).Nodup)
    {q : Qualifier} {category : String} (hrule : c.rule = .zone q category) (hd : d ∈ c.demands)
    (he : e ∈ c.demands) (hde : p.Precedes d e) :
    ∃ x y zone, p.decided d = some x ∧ p.decided e = some y ∧ y.text? category = some zone ∧
      q.fits zone (x.text? category) = true := by
  obtain ⟨pre, x, y, hx, hy, hsibling, htest⟩ := h.sibling hnames hd he hde
  have hempty : (c.decidedSiblings (Path.before pre e)).isEmpty = false :=
    List.isEmpty_eq_false_iff_exists_mem.2 ⟨_, hsibling⟩
  simp only [admits, hrule, hempty, Bool.false_or] at htest
  obtain ⟨zone, hzone, hfits⟩ := Candidate.fitsZones_iff.1 htest
  exact ⟨x, y, zone, hx, hy, hzone, hfits x (List.mem_map.2 ⟨(d, x), hsibling, rfl⟩)⟩

section

variable (h : c.TestedOn p) (hnames : (p.committed.map Prod.fst).Nodup)
  (hscope : ∀ d ∈ c.demands, d ∈ p.committed.map Prod.fst)
include h hnames hscope

theorem TestedOn.single (hd : d ∈ c.demands) :
    ∃ pre x post, p.committed = pre ++ (d, x) :: post ∧ p.decided d = some x ∧
      c.admits (Path.before pre d) x = true := by
  obtain ⟨pre, x, post, hsplit, -, hx⟩ := Path.split_decided hnames (hscope d hd)
  exact ⟨pre, x, post, hsplit, hx, h pre d x post hsplit hd⟩

theorem TestedOn.attributes {evaluate : Table Json} (hrule : c.rule = .attributes evaluate) :
    c.HoldsOn p := by
  unfold HoldsOn
  rw [hrule]
  intro d hd
  obtain ⟨pre, x, -, -, hx, htest⟩ := h.single hnames hscope hd
  simp only [admits, hrule] at htest
  exact ⟨x, hx, Recorded.hasAttributes_iff.1 htest⟩

theorem TestedOn.threshold {key : String} {operator : Comparator} {bound : Float}
    (hrule : c.rule = .threshold key operator bound) : c.HoldsOn p := by
  unfold HoldsOn
  rw [hrule]
  intro d hd
  obtain ⟨pre, x, -, -, hx, htest⟩ := h.single hnames hscope hd
  simp only [admits, hrule] at htest
  obtain ⟨v, hv, hholds⟩ := Candidate.meetsThreshold_iff.1 htest
  exact ⟨x, v, hx, hv, hholds⟩

theorem TestedOn.service {controller inventoryType : String} {request : Json} {cost : Float}
    (hrule : c.rule = .service controller inventoryType request cost) : c.HoldsOn p := by
  unfold HoldsOn
  rw [hrule]
  intro d hd
  obtain ⟨pre, x, -, -, hx, htest⟩ := h.single hnames hscope hd
  simp only [admits, hrule] at htest
  refine ⟨x, hx, fun htype => ?_⟩
  simp only [htype, bne_self_eq_false, Bool.false_or] at htest
  exact Recorded.isServedBy_iff.1 htest

theorem TestedOn.distance {r : DistanceRule} (hrule : c.rule = .distance r) : c.HoldsOn p := by
  -- The test in the later of the two demands places both candidates.
  have hpair : ∀ d ∈ c.demands, ∀ e ∈ c.demands, p.Precedes d e → ∃ x y l m, p.decided d = some x ∧
      p.decided e = some y ∧ Recorded.location? x = some l ∧ Recorded.location? y = some m ∧
        r.operator.holds (r.unit.distance m l) r.value = true := by
    intro d hd e he hde
    obtain ⟨pre, x, y, hx, hy, hsibling, htest⟩ := h.sibling hnames hd he hde
    have hempty : (c.decidedSiblings (Path.before pre e)).isEmpty = false :=
      List.isEmpty_eq_false_iff_exists_mem.2 ⟨_, hsibling⟩
    simp only [admits, hrule, hempty, Bool.false_or] at htest
    obtain ⟨m, hm, hnear⟩ := isNear_iff.1 htest
    obtain ⟨l, hl, hnear⟩ := hnear (d, x) hsibling
    exact ⟨x, y, l, m, hx, hy, hl, hm, hnear⟩
  unfold HoldsOn
  rw [hrule]
  intro d hd e he hne
  rcases Path.precedes_or (hscope d hd) (hscope e he) hne with hde | hed
  · obtain ⟨x, y, l, m, hx, hy, hl, hm, hnear⟩ := hpair d hd e he hde
    exact ⟨x, y, l, m, hx, hy, hl, hm, fun _ => hnear⟩
  · obtain ⟨y, x, m, l, hy, hx, hm, hl, -⟩ := hpair e he d hd hed
    refine ⟨x, y, l, m, hx, hy, hl, hm, fun hde => ?_⟩
    obtain ⟨x', y', l', m', hx', hy', hl', hm', hnear⟩ := hpair d hd e he hde
    rw [hx] at hx'
    rw [hy] at hy'
    cases hx'
    cases hy'
    rw [hl] at hl'
    rw [hm] at hm'
    cases hl'
    cases hm'
    exact hnear

theorem TestedOn.zone_same {category : String} (hrule : c.rule = .zone .same category)
    (htwo : ∃ d ∈ c.demands, ∃ e ∈ c.demands, d ≠ e) : c.HoldsOn p := by
  have hpair : ∀ d ∈ c.demands, ∀ e ∈ c.demands, d ≠ e → ∃ x y zone, p.decided d = some x ∧
      p.decided e = some y ∧
      x.text? category = some zone ∧ y.text? category = some zone := by
    intro d hd e he hne
    rcases Path.precedes_or (hscope d hd) (hscope e he) hne with hde | hed
    · obtain ⟨x, y, zone, hx, hy, hzone, hfits⟩ := h.zones hnames hrule hd he hde
      exact ⟨x, y, zone, hx, hy, eq_of_beq hfits, hzone⟩
    · obtain ⟨y, x, zone, hy, hx, hzone, hfits⟩ := h.zones hnames hrule he hd hed
      exact ⟨x, y, zone, hx, hy, hzone, eq_of_beq hfits⟩
  unfold HoldsOn
  rw [hrule]
  obtain ⟨d, hd, e, he, hne⟩ := htwo
  obtain ⟨x, y, zone, hx, -, hzone, -⟩ := hpair d hd e he hne
  refine ⟨zone, fun f hf => ?_⟩
  by_cases hfd : f = d
  · subst hfd
    exact ⟨x, hx, hzone⟩
  · obtain ⟨z, x', zone', hz, hx', hzone', hsame⟩ := hpair f hf d hd hfd
    rw [hx] at hx'
    cases hx'
    rw [hzone] at hsame
    cases hsame
    exact ⟨z, hz, hzone'⟩

theorem TestedOn.zone_different {category : String} (hrule : c.rule = .zone .different category) :
    c.HoldsOn p := by
  unfold HoldsOn
  rw [hrule]
  intro d hd e he hne
  rcases Path.precedes_or (hscope d hd) (hscope e he) hne with hde | hed
  · obtain ⟨x, y, zone, hx, hy, hzone, hfits⟩ := h.zones hnames hrule hd he hde
    refine ⟨x, y, hx, hy, fun zone' hboth => ?_⟩
    rw [hzone] at hboth
    cases hboth.2
    exact bne_iff_ne.1 hfits hboth.1
  · obtain ⟨y, x, zone, hy, hx, hzone, hfits⟩ := h.zones hnames hrule he hd hed
    refine ⟨x, y, hx, hy, fun zone' hboth => ?_⟩
    rw [hzone] at hboth
    cases hboth.1
    exact bne_iff_ne.1 hfits hboth.2

/-- The test for the demand that comes last is a test of all members. -/
theorem TestedOn.aggregation {rules : List AggregationRule} (hrule : c.rule = .aggregation rules) :
    c.HoldsOn p := by
  unfold HoldsOn
  rw [hrule]
  intro d hd hothers hcount r hr
  obtain ⟨pre, x, post, hsplit, hx, htest⟩ := h.single hnames hscope hd
  have hfresh := Path.not_mem_of_split hnames hsplit
  have hcompletes : c.Completes (Path.before pre d) d :=
    ⟨hcount, Path.isDecided_eq_false_iff.2 hfresh,
      fun e he hed => Path.isDecided_before.2 ((hothers e he hed).mem_before hnames hsplit)⟩
  have hlast : c.lastToResolve (Path.before pre d) = some d :=
    (lastToResolve_eq_some rfl).2 ⟨rfl, hcompletes⟩
  have hmembers : c.members (Path.before pre d) d x = c.demands.filterMap p.decided := by
    refine List.filterMap_congr fun e he => ?_
    by_cases hed : e = d
    · rw [if_pos hed, hed, hx]
    · rw [if_neg hed]
      exact Path.decided_of_before hsplit ((hothers e he hed).mem_before hnames hsplit) d
  simp only [admits, hrule, hlast, hmembers] at htest
  exact List.all_eq_true.1 htest r hr

/-- Tests passed along the commitments add up to what the constraint means. -/
theorem TestedOn.holdsOn (htwo : c.kind.comparesDemands = true →
    ∃ d ∈ c.demands, ∃ e ∈ c.demands, d ≠ e) :
    c.HoldsOn p := by
  cases hrule : c.rule with
  | attributes evaluate => exact h.attributes hnames hscope hrule
  | threshold key operator bound => exact h.threshold hnames hscope hrule
  | distance r => exact h.distance hnames hscope hrule
  | aggregation rules => exact h.aggregation hnames hscope hrule
  | hpa requirements => unfold HoldsOn; rw [hrule]; trivial
  | vimFit request => unfold HoldsOn; rw [hrule]; trivial
  | service controller inventoryType request cost => exact h.service hnames hscope hrule
  | zone q category =>
    cases q with
    | same =>
      refine h.zone_same hnames hscope hrule (htwo ?_)
      unfold kind
      rw [hrule]
      rfl
    | different => exact h.zone_different hnames hscope hrule

end

end Constraint

end Placement
