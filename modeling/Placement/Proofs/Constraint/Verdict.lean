import Mathlib.Data.List.Nodup
import Placement.Problem
import Placement.Proofs.Constraint.Equipment
import Placement.Proofs.Constraint.Scope

/-!
# Verdicts from the records

Against the engine that answers from the records, a constraint is a test of each candidate by
itself: `admits`. Only hardware and capacity constraints replace the pool, by annotated candidates
in their old order, and no test changes its mind about a candidate that has been annotated. What
comes out of the pipeline therefore passes the tests of all constraints, the earlier ones included.
-/

namespace Placement

open Solving

namespace Constraint

variable {c : Constraint} {p : Path} {pool out : List Candidate} {x y : Candidate}
  {log : List Exchange}

/-! ## The tests -/

/-- The candidate has a place, and so has every sibling, at a distance within the bound. -/
def isNear (r : DistanceRule) (siblings : List (String × Candidate)) (x : Candidate) : Bool :=
  match Recorded.location? x with
  | none => false
  | some l => siblings.all fun s =>
    match Recorded.location? s.2 with
    | none => false
    | some o => r.operator.holds (r.unit.distance l o) r.value

/-- The constraint's test of a candidate for the demand under resolution. -/
def admits (c : Constraint) (p : Path) (x : Candidate) : Bool :=
  match c.rule with
  | .attributes evaluate => Recorded.hasAttributes evaluate x
  | .threshold key operator bound => x.meetsThreshold key operator bound
  | .distance r => (c.decidedSiblings p).isEmpty || isNear r (c.decidedSiblings p) x
  | .aggregation rules =>
    match c.lastToResolve p with
    | none => true
    | some current => rules.all fun r => r.accepts (c.members p current x)
  | .hpa _ => true
  | .vimFit _ => true
  | .service controller inventoryType _ _ =>
    x.inventoryType != inventoryType || Recorded.isServedBy controller x
  | .zone qualifier category =>
    (c.decidedSiblings p).isEmpty ||
    x.fitsZones qualifier category ((c.decidedSiblings p).map Prod.snd)

/-! ## Tests of annotated candidates -/

theorem hasAttributes_annotates (h : Annotates x y) {evaluate : Table Json}
    (hx : Recorded.hasAttributes evaluate x = true) : Recorded.hasAttributes evaluate y = true := by
  unfold Recorded.hasAttributes at *
  rw [List.all_eq_true] at *
  rintro ⟨key, expected⟩ he
  have hmeets := hx (key, expected) he
  simp only at hmeets ⊢
  cases hv : x.attribute? key with
  | none => rw [hv] at hmeets; cases hmeets
  | some v =>
    rw [hv] at hmeets
    obtain ⟨w, hw, hnumber, htext⟩ := h.exists_attribute hv
    rw [hw]
    simp only at hmeets ⊢
    unfold Recorded.meets at *
    simp only [Json.looseEq_congr hnumber htext]
    exact hmeets

theorem location?_annotates (h : Annotates x y) : Recorded.location? y = Recorded.location? x := by
  unfold Recorded.location?
  rw [h.number?, h.number?]

theorem isServedBy_annotates (h : Annotates x y) (controller : String) :
    Recorded.isServedBy controller y = Recorded.isServedBy controller x := by
  unfold Recorded.isServedBy
  rw [h.get?_of_not_mem (by decide)]

theorem numbersOf?_annotates (h : Annotates x y) (key : String) (p : Path) (current : String) :
    ∀ ds : List String, numbersOf? key
      (ds.filterMap fun d => if d = current then some y else p.decided d) =
      numbersOf? key (ds.filterMap fun d => if d = current then some x else p.decided d)
  | [] => rfl
  | d :: ds => by
    have ih := numbersOf?_annotates h key p current ds
    rw [List.filterMap_cons, List.filterMap_cons]
    by_cases hd : d = current
    · simp only [if_pos hd]
      rw [numbersOf?, numbersOf?, h.number?, ih]
    · simp only [if_neg hd]
      cases p.decided d with
      | none => exact ih
      | some z =>
        simp only
        rw [numbersOf?, numbersOf?, ih]

/-- A candidate that passes a test passes it with annotations too. -/
theorem admits_annotates (h : Annotates x y) (hx : c.admits p x = true) : c.admits p y = true := by
  unfold admits at *
  cases hrule : c.rule with
  | attributes evaluate =>
    rw [hrule] at hx
    exact hasAttributes_annotates h hx
  | threshold key operator bound =>
    simp only [hrule, Candidate.meetsThreshold] at hx ⊢
    rwa [h.number?]
  | distance r =>
    simp only [hrule, isNear] at hx ⊢
    rwa [location?_annotates h]
  | aggregation rules =>
    simp only [hrule, AggregationRule.accepts, members] at hx ⊢
    simp only [numbersOf?_annotates h]
    exact hx
  | hpa requirements => rfl
  | vimFit request => rfl
  | service controller inventoryType request cost =>
    simp only [hrule] at hx ⊢
    rwa [h.inventoryType_eq, isServedBy_annotates h]
  | zone qualifier category =>
    simp only [hrule, Candidate.fitsZones] at hx ⊢
    rwa [h.text?]

/-! ## Filtering by the records -/

theorem keepAttributed_recorded {evaluate : Table Json} (hids : (pool.map Candidate.id).Nodup)
    (h : Ends (keepAttributed evaluate p pool) log (.ok out)) (ha : Engine.recorded.Answers log) :
    out = pool.filter (Recorded.hasAttributes evaluate) := by
  unfold keepAttributed at h
  obtain ⟨log₁, log₂, matched, rfl, hmatched, h⟩ := ends_bind_ok.1 h
  cases (ends_pure.1 h).2
  have hanswer : matched = pool.filter (Recorded.hasAttributes evaluate) :=
    ends_ask_recorded hmatched (Engine.answers_append.1 ha).1
  rw [hanswer]
  refine List.filter_congr fun x hx => ?_
  rw [Bool.eq_iff_iff, List.any_eq_true]
  constructor
  · rintro ⟨y, hy, hid⟩
    obtain ⟨hy, hattributes⟩ := List.mem_filter.1 hy
    rwa [List.inj_on_of_nodup_map hids hx hy (eq_of_beq hid).symm]
  · exact fun hattributes => ⟨x, List.mem_filter.2 ⟨hx, hattributes⟩, beq_self_eq_true x.id⟩

theorem siblingLocations_recorded :
    ∀ {siblings : List (String × Candidate)} {log : List Exchange} {ls : List Location},
    Ends (siblingLocations siblings) log (.ok ls) → Engine.recorded.Answers log →
      siblings.map (fun s => Recorded.location? s.2) = ls.map some
  | [], log, ls, h, _ => by
    cases (ends_pure.1 h).2
    rfl
  | (d, x) :: siblings, log, ls, h, ha => by
    unfold siblingLocations locate at h
    obtain ⟨log₁, log₂, place, rfl, hplace, h⟩ := ends_bind_ok.1 h
    obtain ⟨ha₁, ha₂⟩ := Engine.answers_append.1 ha
    have hanswer : place = Recorded.location? x := ends_ask_recorded hplace ha₁
    cases place with
    | none => cases (ends_throw.1 h).2
    | some l =>
      obtain ⟨log₃, log₄, ls', rfl, hls, h⟩ := ends_bind_ok.1 h
      cases (ends_pure.1 h).2
      rw [List.map_cons, List.map_cons,
        siblingLocations_recorded hls (Engine.answers_append.1 ha₂).1, hanswer]

theorem keepNear_recorded {r : DistanceRule} {others : List Location} :
    ∀ {pool out : List Candidate} {log : List Exchange},
      Ends (keepNear r others pool) log (.ok out) →
      Engine.recorded.Answers log → out = pool.filter fun x =>
        match Recorded.location? x with
        | none => false
        | some l => r.fits l others
  | [], out, log, h, _ => by
    cases (ends_pure.1 h).2
    rfl
  | x :: pool, out, log, h, ha => by
    unfold keepNear locate at h
    obtain ⟨log₁, log₂, place, rfl, hplace, h⟩ := ends_bind_ok.1 h
    obtain ⟨log₃, log₄, rest, rfl, hrest, h⟩ := ends_bind_ok.1 h
    obtain ⟨ha₁, ha₂⟩ := Engine.answers_append.1 ha
    have hanswer : place = Recorded.location? x := ends_ask_recorded hplace ha₁
    have ih := keepNear_recorded hrest (Engine.answers_append.1 ha₂).1
    rw [List.filter_cons, ← hanswer, ← ih]
    cases place with
    | none =>
      cases (ends_pure.1 h).2
      rfl
    | some l =>
      cases (ends_pure.1 h).2
      rfl

theorem keepDistant_recorded {r : DistanceRule} (h : Ends (c.keepDistant r p pool) log (.ok out))
    (ha : Engine.recorded.Answers log) :
    out = pool.filter fun x => (c.decidedSiblings p).isEmpty ||
      isNear r (c.decidedSiblings p) x := by
  unfold keepDistant at h
  split at h
  · next hnone =>
    cases (ends_pure.1 h).2
    rw [hnone]
    exact (List.filter_eq_self.2 fun x _ => rfl).symm
  · next hsome =>
    obtain ⟨log₁, log₂, others, rfl, hothers, h⟩ := ends_bind_ok.1 h
    obtain ⟨ha₁, ha₂⟩ := Engine.answers_append.1 ha
    have hplaces := siblingLocations_recorded hothers ha₁
    have hempty : (c.decidedSiblings p).isEmpty = false := by simpa using hsome
    rw [keepNear_recorded h ha₂]
    refine List.filter_congr fun x _ => ?_
    rw [hempty, Bool.false_or]
    unfold isNear DistanceRule.fits
    cases Recorded.location? x with
    | none => rfl
    | some l =>
      let near : Option Location → Bool := fun place =>
        match place with
        | none => false
        | some o => r.operator.holds (r.unit.distance l o) r.value
      calc others.all (fun o => r.operator.holds (r.unit.distance l o) r.value)
          = (others.map some).all near := by rw [List.all_map]; rfl
        _ = ((c.decidedSiblings p).map fun s => Recorded.location? s.2).all near := by rw [hplaces]
        _ = (c.decidedSiblings p).all fun s => near (Recorded.location? s.2) := List.all_map

theorem matched_getD (cs : List Candidate) : (Recorded.matched cs).getD [] = cs := by
  unfold Recorded.matched
  cases cs with
  | nil => rfl
  | cons x xs => rfl

/-- Of records with ids of their own, the last one with an id is the only one. -/
theorem lastRecord?_filter (hids : (pool.map Candidate.id).Nodup) (hx : x ∈ pool)
    (f : Candidate → Bool) :
    lastRecord? (pool.filter f) x.id = if f x then some x else none := by
  unfold lastRecord? Candidate.find?
  by_cases hf : f x = true
  · rw [if_pos hf]
    obtain ⟨y, hy⟩ : ∃ y, (pool.filter f).reverse.find? (fun y => y.id == x.id) = some y := by
      rw [← Option.isSome_iff_exists, List.find?_isSome]
      exact ⟨x, List.mem_reverse.2 (List.mem_filter.2 ⟨hx, hf⟩), beq_self_eq_true x.id⟩
    have hmem := (List.mem_filter.1 (List.mem_reverse.1 (List.mem_of_find?_eq_some hy))).1
    have hid := List.find?_some hy
    rw [hy, List.inj_on_of_nodup_map hids hmem hx (eq_of_beq hid)]
  · rw [if_neg hf, List.find?_eq_none]
    intro y hy hid
    obtain ⟨hmem, hfy⟩ := List.mem_filter.1 (List.mem_reverse.1 hy)
    rw [List.inj_on_of_nodup_map hids hmem hx (eq_of_beq hid)] at hfy
    exact hf hfy

theorem keepServed_recorded {controller inventoryType : String} {request : Json} {cost : Float}
    (hids : (pool.map Candidate.id).Nodup)
    (h : Ends (c.keepServed controller inventoryType request cost p pool) log (.ok out))
    (ha : Engine.recorded.Answers log) :
    out = pool.filter fun x => x.inventoryType != inventoryType ||
      Recorded.isServedBy controller x := by
  unfold keepServed at h
  split at h
  · next hnone =>
    cases (ends_pure.1 h).2
    refine (List.filter_eq_self.2 fun x hx => ?_).symm
    have htype := List.filter_eq_nil_iff.1 hnone x hx
    simp only [beq_iff_eq] at htype
    simp [htype]
  · next hsome =>
    obtain ⟨log₁, log₂, confirmed, rfl, hconfirmed, h⟩ := ends_bind_ok.1 h
    cases (ends_pure.1 h).2
    have hanswer : confirmed = Recorded.matched
        ((pool.filter fun x => x.inventoryType == inventoryType).filter
          (Recorded.isServedBy controller)) :=
      ends_ask_recorded hconfirmed (Engine.answers_append.1 ha).1
    rw [hanswer, matched_getD, List.filter_filter]
    unfold takeConfirmed
    refine Eq.trans (List.filterMap_congr fun x hx => ?_) (congrFun List.filterMap_eq_filter pool)
    by_cases htype : x.inventoryType = inventoryType
    · rw [if_pos htype, lastRecord?_filter hids hx]
      simp [htype, Option.guard]
    · rw [if_neg htype]
      simp [htype, Option.guard]

theorem leaves_keepFitting {request : CapacityRequest}
    (h : Ends (keepFitting request pool) log (.ok out)) (ha : Engine.recorded.Answers log) :
    Recorded.Leaves [] pool out := by
  unfold keepFitting at h
  obtain ⟨log₁, log₂, fitting, rfl, hfitting, h⟩ := ends_bind_ok.1 h
  have hanswer : fitting = Recorded.matched (pool.filter (Recorded.hasCapacity request)) :=
    ends_ask_recorded hfitting (Engine.answers_append.1 ha).1
  split at h
  · next x xs =>
    cases (ends_pure.1 h).2
    have hpool : x :: xs = pool.filter (Recorded.hasCapacity request) := by
      rw [← matched_getD (pool.filter _), ← hanswer]
      rfl
    rw [hpool]
    exact .of_sublist List.filter_sublist
  · cases (ends_pure.1 h).2
    exact .of_sublist (List.Sublist.refl _)

/-! ## Any constraint -/

theorem replaces_iff : (c.kind = .hpa ∨ c.kind = .vimFit) ↔
    (∃ rs, c.rule = .hpa rs) ∨ ∃ request, c.rule = .vimFit request := by
  unfold kind
  cases c.rule <;> simp [Rule.kind]

/-- A constraint that is neither on hardware nor on capacity keeps the candidates that pass its
test, as they are. -/
theorem filter_recorded (hids : (pool.map Candidate.id).Nodup)
    (hkind : c.kind ≠ .hpa ∧ c.kind ≠ .vimFit) (h : Ends (c.filter p pool) log (.ok out))
    (ha : Engine.recorded.Answers log) :
    out = pool.filter (c.admits p) := by
  unfold filter at h
  unfold admits
  unfold kind at hkind
  cases hrule : c.rule with
  | attributes evaluate =>
    rw [hrule] at h
    exact keepAttributed_recorded hids h ha
  | threshold key operator bound =>
    rw [hrule] at h
    cases (ends_pure.1 h).2
    rfl
  | distance r =>
    rw [hrule] at h
    exact keepDistant_recorded h ha
  | aggregation rules =>
    rw [hrule] at h
    cases (ends_pure.1 h).2
    unfold keepAggregated
    cases c.lastToResolve p with
    | none => exact (List.filter_eq_self.2 fun x _ => rfl).symm
    | some current => rfl
  | hpa requirements =>
    rw [hrule] at hkind
    exact absurd rfl hkind.1
  | vimFit request =>
    rw [hrule] at hkind
    exact absurd rfl hkind.2
  | service controller inventoryType request cost =>
    rw [hrule] at h
    exact keepServed_recorded hids h ha
  | zone qualifier category =>
    rw [hrule] at h
    cases (ends_pure.1 h).2
    unfold keepZoned
    split
    · next hnone =>
      have hempty : (c.decidedSiblings p).isEmpty = true := by simpa using hnone
      rw [hempty]
      exact (List.filter_eq_self.2 fun x _ => rfl).symm
    · next hsome =>
      have hempty : (c.decidedSiblings p).isEmpty = false := by simpa using hsome
      rw [hempty]
      rfl

/-- What a constraint lets through passes its test, with flavors for the requirements of the
constraint. -/
theorem admits_of_filter (hids : (pool.map Candidate.id).Nodup)
    (h : Ends (c.filter p pool) log (.ok out)) (ha : Engine.recorded.Answers log) :
    (∃ rs, rs.Sublist c.requirements ∧ Recorded.Leaves rs pool out) ∧
    ∀ y ∈ out, c.admits p y = true := by
  by_cases hkind : c.kind = .hpa ∨ c.kind = .vimFit
  · unfold filter at h
    rcases replaces_iff.1 hkind with ⟨rs, hrule⟩ | ⟨request, hrule⟩
    · rw [hrule] at h
      obtain ⟨k, hleaves⟩ := leaves_keepEquipped h ha
      refine ⟨⟨rs.take k, ?_, hleaves⟩, fun y _ => ?_⟩
      · unfold requirements
        rw [hrule]
        exact List.take_sublist k rs
      · unfold admits
        rw [hrule]
    · rw [hrule] at h
      refine ⟨⟨[], List.nil_sublist _, leaves_keepFitting h ha⟩, fun y _ => ?_⟩
      unfold admits
      rw [hrule]
  · rw [filter_recorded hids (not_or.1 hkind) h ha]
    exact ⟨⟨[], List.nil_sublist _, .of_sublist List.filter_sublist⟩,
      fun y hy => (List.mem_filter.1 hy).2⟩

end Constraint

/-- What the pipeline lets through passes the tests of all its constraints, with flavors for their
requirements. -/
theorem admits_of_narrow {p : Path} {out : List Candidate} :
    ∀ {cs : List Constraint} {pool : List Candidate}
    {log : List Exchange}, (pool.map Candidate.id).Nodup → Ends (narrow p cs pool) log (.ok out) →
      Engine.recorded.Answers log →
        (∃ rs, rs.Sublist (cs.flatMap Constraint.requirements) ∧ Recorded.Leaves rs pool out) ∧
          ∀ c ∈ cs, ∀ y ∈ out, c.admits p y = true
  | [], pool, log, _, h, _ => by
    cases (ends_pure.1 h).2
    exact ⟨⟨[], List.nil_sublist _, .of_sublist (List.Sublist.refl _)⟩, by simp⟩
  | c :: cs, pool, log, hids, h, ha => by
    unfold narrow at h
    obtain ⟨log₁, log₂, kept, rfl, hkept, h⟩ := ends_bind_ok.1 h
    obtain ⟨ha₁, ha₂⟩ := Engine.answers_append.1 ha
    obtain ⟨⟨rs, hrs, hleaves⟩, hadmits⟩ := Constraint.admits_of_filter hids hkept ha₁
    rw [List.flatMap_cons]
    cases kept with
    | nil =>
      cases (ends_pure.1 h).2
      exact ⟨⟨rs, hrs.trans (List.sublist_append_left _ _), hleaves⟩, by simp⟩
    | cons x xs =>
      obtain ⟨⟨rs', hrs', hleaves'⟩, hadmits'⟩ := admits_of_narrow (hids.sublist hleaves.ids) h ha₂
      refine ⟨⟨rs ++ rs', hrs.append hrs', hleaves.trans hleaves'⟩, fun c' hc' y hy => ?_⟩
      rcases List.mem_cons.1 hc' with rfl | hc'
      · obtain ⟨z, hz, hzy⟩ := hleaves'.exists_mem hy
        exact Constraint.admits_annotates hzy.annotates (hadmits z hz)
      · exact hadmits' c' hc' y hy

end Placement
