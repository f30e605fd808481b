import Placement.Problem
import Placement.Proofs.Checks

/-!
# Well-formed descriptors of constraints

A descriptor is well formed if it is about known demands, its type is known, its scope is wide
enough for the type, and its properties read as what the type needs and are sound. `Kind.form` lists
for each kind of constraint what is read and when it is sound; a descriptor that is not well formed
is refused for the first of these that it misses.
-/

namespace Placement

variable {known : List String} {spec : ConstraintSpec} {properties : Json}

/-! ## Kinds -/

namespace Kind

variable {k : Kind} {tag : String}

theorem eq_of_mem_tags {k' : Kind} (h : tag ∈ k.tags) (h' : tag ∈ k'.tags) : k = k' := by
  have hdisjoint : ∀ k ∈ all, ∀ k' ∈ all, ∀ tag ∈ k.tags, tag ∈ k'.tags → k = k' := by decide
  have hall : ∀ k : Kind, k ∈ all := fun k => by cases k <;> decide
  exact hdisjoint k (hall k) k' (hall k') tag h h'

theorem ofTag?_eq_some : ofTag? tag = some k ↔ tag ∈ k.tags := by
  unfold ofTag?
  rw [find?_eq_some_of_unique (fun k => by cases k <;> decide)]
  · exact List.contains_iff_mem
  · exact fun k k' h h' => eq_of_mem_tags (List.contains_iff_mem.1 h) (List.contains_iff_mem.1 h')

theorem ofTag?_eq_none : ofTag? tag = none ↔ ∀ k : Kind, tag ∉ k.tags := by
  unfold ofTag?
  rw [find?_eq_none_of_all fun k => by cases k <;> decide]
  exact forall_congr' fun k => by simp

/-! ## Scopes -/

/-- The demands are a scope for the kind. -/
structure Spans (k : Kind) (demands : List String) : Prop where
  some : demands ≠ []
  two : k.comparesDemands = true → ∃ d ∈ demands, ∃ e ∈ demands, d ≠ e

/-- Why the demands are no scope for the kind. -/
inductive Misses (k : Kind) (demands : List String) : ConstraintFlaw → Prop
  | none (h : demands = []) : Misses k demands .noDemands
  | one (hsome : demands ≠ []) (hkind : k.comparesDemands = true)
      (h : ∀ d ∈ demands, ∀ e ∈ demands, d = e) :
      Misses k demands (.tooFewDemands k.tag)

theorem decides_checkScope (k : Kind) (demands : List String) :
    Decides (Constraint.checkScope k demands) (k.Spans demands) (k.Misses demands) := by
  cases demands with
  | nil =>
    refine (Decides.of_error _).congr (iff_of_false id fun h => h.some rfl) fun flaw => ⟨?_, ?_⟩
    · rintro rfl
      exact .none rfl
    · rintro (- | ⟨hsome, -, -⟩)
      · rfl
      · exact absurd rfl hsome
  | cons d ds =>
    have hone : (ds.all (· == d)) = true ↔ ∀ e ∈ d :: ds, ∀ e' ∈ d :: ds, e = e' := by
      rw [List.all_eq_true]
      constructor
      · intro h
        have hd : ∀ e ∈ d :: ds, e = d :=
          List.forall_mem_cons.2 ⟨rfl, fun e he => beq_iff_eq.1 (h e he)⟩
        exact fun e he e' he' => (hd e he).trans (hd e' he').symm
      · exact fun h e he => beq_iff_eq.2 (h e (List.mem_cons_of_mem _ he) d List.mem_cons_self)
    unfold Constraint.checkScope
    simp only
    split
    · next h =>
      obtain ⟨hkind, hall⟩ := Bool.and_eq_true_iff.1 h
      have hsame := hone.1 hall
      refine (Decides.of_error _).congr (iff_of_false id fun h => ?_) fun flaw => ⟨?_, ?_⟩
      · obtain ⟨e, he, e', he', hne⟩ := h.two hkind
        exact hne (hsame e he e' he')
      · rintro rfl
        exact .one (List.cons_ne_nil _ _) hkind hsame
      · rintro (h | -)
        · cases h
        · rfl
    · next h =>
      have hnot : k.comparesDemands = true → ¬∀ e ∈ d :: ds, ∀ e' ∈ d :: ds, e = e' :=
        fun hkind hsame => h (Bool.and_eq_true_iff.2 ⟨hkind, hone.2 hsame⟩)
      refine (Decides.of_ok _).congr (iff_of_true trivial ⟨List.cons_ne_nil _ _, fun hkind => ?_⟩)
        fun flaw => iff_of_false id ?_
      · exact Classical.byContradiction fun hnone => hnot hkind fun e he e' he' =>
          Classical.byContradiction fun hne => hnone ⟨e, he, e', he', hne⟩
      · rintro (h | ⟨-, hkind, hsame⟩)
        · cases h
        · exact hnot hkind hsame

end Kind

/-! ## Properties -/

/-- What a kind reads from the properties, when it is sound, and what is wrong with it otherwise. -/
structure Form where
  Content : Type
  record : Record Content
  Sound : Content → Prop
  flaw : Content → ConstraintFlaw

namespace Form

def Accepts (f : Form) (properties : Json) : Prop :=
  ∃ content, Reader.value f.record.read properties = .ok content ∧ f.Sound content

inductive Refuses (f : Form) (properties : Json) : ConstraintFlaw → Prop
  | unreadable {e : ReadError} (h : Reader.value f.record.read properties = .error e) :
      Refuses f properties (.badProperties e)
  | unsound {content : f.Content} (hread : Reader.value f.record.read properties = .ok content)
      (h : ¬f.Sound content) : Refuses f properties (f.flaw content)

end Form

/-- The distance does not compare with any other: it is no rule at all, or its bound is negative or
not finite. -/
def DistanceSpec.flaw (spec : DistanceSpec) : ConstraintFlaw :=
  match spec with
  | .structured _ => .negativeDistance
  | .compact text =>
    if (DistanceRule.parse? text).isSome then .negativeDistance else .unreadableDistance text

/-- The rule for which a distance stands. -/
def DistanceSpec.rule? : DistanceSpec → Option DistanceRule
  | .structured r => some r
  | .compact text => DistanceRule.parse? text

def Kind.form : Kind → Form
  | .attributes =>
    { Content := Table Json
      record := .required "evaluate" fieldsReader
      Sound := fun evaluate => evaluate ≠ []
      flaw := fun _ => .emptyEvaluate }
  | .threshold =>
    { Content := String × Float × Comparator
      record := (Record.required "attribute" Reader.string).and
        ((Record.required "threshold" Reader.float).and
          (Record.required "operator" Comparator.reader))
      Sound := fun (_, bound, _) => bound.isFinite = true
      flaw := fun _ => .infiniteThreshold }
  | .distance =>
    { Content := DistanceSpec
      record := .required "distance" DistanceSpec.reader
      Sound := fun spec => ∃ r ∈ spec.rule?, r.value.isFinite = true ∧ ¬r.value < 0.0
      flaw := DistanceSpec.flaw }
  | .aggregation =>
    { Content := List AggregationRule
      record := .required "evaluate" (Reader.list AggregationRule.shape.read)
      Sound := fun evaluate => evaluate ≠ []
      flaw := fun _ => .emptyEvaluate }
  | .hpa =>
    { Content := List HpaRequirement
      record := .required "evaluate" (Reader.list HpaRequirement.reader)
      Sound := fun evaluate => evaluate ≠ []
      flaw := fun _ => .emptyEvaluate }
  | .vimFit =>
    { Content := Option String × CapacityRequest
      record := (Record.withDefault "controller" (Reader.optional Reader.string) none).and
        (Record.required "request" CapacityRequest.reader)
      Sound :=
        fun (_, request) => ¬request.vcpus < 0.0 ∧ ¬request.memory < 0.0 ∧ ¬request.storage < 0.0
      flaw := fun _ => .negativeCapacity }
  | .service =>
    { Content := String × String × Json × Float
      record := (Record.required "controller" Reader.string).and
        ((Record.required "inventory_type" Reader.string).and
          ((Record.withDefault "request" Reader.any .null).and
            (Record.withDefault "cost" Reader.float 0.0)))
      Sound := fun (controller, inventoryType, _, _) => controller ≠ "" ∧ inventoryType ≠ ""
      flaw := fun _ => .noController }
  | .zone =>
    { Content := Qualifier × String
      record := (Record.required "qualifier" (Reader.choice Qualifier.ofName?)).and
        (Record.required "category" Reader.string)
      Sound := fun (_, category) => category ≠ ""
      flaw := fun _ => .emptyCategory }

namespace Rule

/-- Properties are read first and then checked by themselves. -/
theorem decides_form {α : Type} (f : Form) {check : f.Content → Except ConstraintFlaw α}
    (hcheck : ∀ content, Decides (check content) (f.Sound content) fun flaw =>
      ¬f.Sound content ∧ flaw = f.flaw content) :
    Decides (readProperties f.record properties >>= check) (f.Accepts properties)
      (f.Refuses properties) := by
  unfold readProperties
  cases hread : Reader.value f.record.read properties with
  | error e =>
    refine (Decides.of_error _).congr (iff_of_false id ?_) fun flaw => ⟨?_, ?_⟩
    · rintro ⟨content, hcontent, -⟩
      cases hread.symm.trans hcontent
    · rintro rfl
      exact .unreadable hread
    · rintro (⟨h⟩ | ⟨h, -⟩)
      · cases hread.symm.trans h
        rfl
      · cases hread.symm.trans h
  | ok content =>
    refine (hcheck content).congr ⟨fun h => ⟨content, hread, h⟩, ?_⟩ fun flaw => ⟨?_, ?_⟩
    · rintro ⟨content', hcontent, h⟩
      cases hread.symm.trans hcontent
      exact h
    · rintro ⟨h, rfl⟩
      exact .unsound hread h
    · rintro (⟨h⟩ | ⟨hcontent, h⟩)
      · cases hread.symm.trans h
      · cases hread.symm.trans hcontent
        exact ⟨h, rfl⟩

theorem decides_nonempty {α : Type} (as : List α) :
    Decides (if as.isEmpty then .error ConstraintFlaw.emptyEvaluate else .ok as) (as ≠ [])
      fun flaw => ¬as ≠ [] ∧ flaw = .emptyEvaluate := by
  have hempty : as ≠ [] ↔ ¬as.isEmpty = true := by rw [List.isEmpty_iff]
  rw [hempty]
  exact .ite_error _ _

theorem decides_distance (spec : DistanceSpec) :
    Decides (ofDistance spec >>= fun r => if r.isBounded then .ok (distance r)
      else .error .negativeDistance)
      (Kind.distance.form.Sound spec) fun flaw => ¬Kind.distance.form.Sound spec ∧
        flaw = spec.flaw := by
  have hbounded : ∀ r, spec.rule? = some r →
      (Kind.distance.form.Sound spec ↔ r.isBounded = true) := by
    intro r hr
    have hsound : Kind.distance.form.Sound spec ↔
        ∃ r ∈ spec.rule?, r.value.isFinite = true ∧ ¬r.value < 0.0 := Iff.rfl
    rw [hsound, hr]
    simp [DistanceRule.isBounded]
  cases spec with
  | structured r =>
    rw [hbounded r rfl]
    exact .ite _ _
  | compact text =>
    unfold ofDistance DistanceSpec.flaw
    simp only
    cases hr : DistanceRule.parse? text with
    | some r =>
      rw [hbounded r hr]
      exact .ite _ _
    | none =>
      have hsound : ¬Kind.distance.form.Sound (.compact text) := by
        rintro ⟨r, hparse, -⟩
        cases hr.symm.trans hparse
      exact (Decides.of_error _).congr (iff_of_false id hsound) fun flaw =>
        (and_iff_right hsound).symm

/-- The properties of a kind are read where its form accepts them, and refused for what the form
refuses. -/
theorem decides_read (k : Kind) (properties : Json) :
    Decides (Rule.read k properties) (k.form.Accepts properties) (k.form.Refuses properties) := by
  cases k with
  | attributes => exact (decides_form (Kind.form .attributes) decides_nonempty).map _
  | threshold => exact decides_form (Kind.form .threshold) fun _ => .ite _ _
  | distance => exact decides_form (Kind.form .distance) decides_distance
  | aggregation => exact (decides_form (Kind.form .aggregation) decides_nonempty).map _
  | hpa => exact (decides_form (Kind.form .hpa) decides_nonempty).map _
  | vimFit =>
    refine decides_form (Kind.form .vimFit) fun ⟨controller, request⟩ => ?_
    have hsound : Kind.vimFit.form.Sound (controller, request) ↔
        ¬(request.vcpus < 0.0 ∨ request.memory < 0.0 ∨ request.storage < 0.0) := by
      rw [not_or, not_or]
      rfl
    rw [hsound]
    exact .ite_error _ _
  | service =>
    refine decides_form (Kind.form .service) fun ⟨controller, inventoryType, request, cost⟩ => ?_
    have hsound : Kind.service.form.Sound (controller, inventoryType, request, cost) ↔
        ¬(controller = "" ∨ inventoryType = "") := by
      rw [not_or]
      rfl
    rw [hsound]
    exact .ite_error _ _
  | zone => exact decides_form (Kind.form .zone) fun _ => .ite_error _ _

end Rule

/-! ## Descriptors -/

structure ConstraintSpec.WellFormed (known : List String) (spec : ConstraintSpec) : Prop where
  demands : ∀ d ∈ spec.demands, d ∈ known
  properties : ∃ k : Kind, spec.kind ∈ k.tags ∧ k.Spans spec.demands ∧
    k.form.Accepts spec.properties

/-- The first fault of a descriptor: a demand that is not known, a type that is not, a scope that is
not one for the type, or properties that are not. -/
inductive ConstraintSpec.FirstFault (known : List String) (spec : ConstraintSpec) :
    SolveError → Prop
  | demand {before rest : List String} {d : String} (hdemands : spec.demands = before ++ d :: rest)
      (hbefore : ∀ b ∈ before, b ∈ known) (hd : d ∉ known) :
      FirstFault known spec (.unknownDemand d)
  | kind (hdemands : ∀ d ∈ spec.demands, d ∈ known) (hkind : ∀ k : Kind, spec.kind ∉ k.tags) :
      FirstFault known spec (.unknownConstraintType spec.name spec.kind)
  | scope {k : Kind} {flaw : ConstraintFlaw} (hdemands : ∀ d ∈ spec.demands, d ∈ known)
      (hkind : spec.kind ∈ k.tags) (h : k.Misses spec.demands flaw) :
      FirstFault known spec (.invalidConstraint spec.name flaw)
  | properties {k : Kind} {flaw : ConstraintFlaw} (hdemands : ∀ d ∈ spec.demands, d ∈ known)
      (hkind : spec.kind ∈ k.tags) (hscope : k.Spans spec.demands)
      (h : k.form.Refuses spec.properties flaw) :
      FirstFault known spec (.invalidConstraint spec.name flaw)

namespace Constraint

/-- A descriptor of a kind is built where its scope and its properties are in order. -/
theorem decides_build {k : Kind} (hkind : spec.kind ∈ k.tags) :
    Decides (Constraint.build spec) (k.Spans spec.demands ∧ k.form.Accepts spec.properties) fun e =>
      ∃ flaw, (k.Misses spec.demands flaw ∨
        k.Spans spec.demands ∧ k.form.Refuses spec.properties flaw) ∧
        e = .invalidConstraint spec.name flaw := by
  have hread :=
    (k.decides_checkScope spec.demands).bind fun _ _ => Rule.decides_read k spec.properties
  have hbuild : Constraint.build spec =
      ((checkScope k spec.demands >>= fun _ => Rule.read k spec.properties).mapError
        (.invalidConstraint spec.name)).map fun rule =>
          ⟨spec.name, spec.demands, spec.priority.getD k.defaultPriority, rule⟩ := by
    unfold Constraint.build
    rw [Kind.ofTag?_eq_some.2 hkind]
    simp only
    cases hscope : checkScope k spec.demands with
    | error flaw => rfl
    | ok u => cases hrule : Rule.read k spec.properties <;> rfl
  rw [hbuild]
  exact (hread.mapError _).map _

end Constraint

namespace Problem

theorem decides_buildConstraint (known : List String) (spec : ConstraintSpec) :
    Decides (buildConstraint known spec) (spec.WellFormed known) (spec.FirstFault known) := by
  unfold buildConstraint
  cases hfind : spec.demands.find? fun d => !known.contains d with
  | some d =>
    obtain ⟨hd, before, rest, hdemands, hbefore⟩ := List.find?_eq_some_iff_append.1 hfind
    have hd : d ∉ known := by simpa using hd
    have hmem : d ∈ spec.demands := by simp [hdemands]
    refine (Decides.of_error _).congr (iff_of_false id fun h => hd (h.demands d hmem)) fun e =>
      ⟨?_, fun h => ?_⟩
    · rintro rfl
      exact .demand hdemands (by simpa using hbefore) hd
    · cases h with
      | demand hdemands' hbefore' hd' =>
        -- The search finds the demand of any such split, so there is one split only.
        have hfind' := List.find?_eq_some_iff_append (p := fun d => !known.contains d).2
          ⟨by simpa using hd', _, _, hdemands', by simpa using hbefore'⟩
        rw [Option.some.inj (hfind.symm.trans hfind')]
      | kind hall hkind => exact absurd (hall d hmem) hd
      | scope hall hkind h => exact absurd (hall d hmem) hd
      | properties hall hkind hscope h => exact absurd (hall d hmem) hd
  | none =>
    have hall : ∀ d ∈ spec.demands, d ∈ known :=
      fun d hd => by simpa using List.find?_eq_none.1 hfind d hd
    have hknown : ∀ {before rest : List String} {d : String}, spec.demands = before ++ d :: rest →
        d ∈ known :=
      fun h => hall _ (by simp [h])
    cases hkind : Kind.ofTag? spec.kind with
    | none =>
      have hnone := Kind.ofTag?_eq_none.1 hkind
      unfold Constraint.build
      simp only [hkind]
      refine (Decides.of_error _).congr (iff_of_false id fun h => ?_) fun e => ⟨?_, fun h => ?_⟩
      · obtain ⟨k, hk, -⟩ := h.properties
        exact hnone k hk
      · rintro rfl
        exact .kind hall hnone
      · cases h with
        | demand hdemands hbefore hd => exact absurd (hknown hdemands) hd
        | kind => rfl
        | scope _ hk => exact absurd hk (hnone _)
        | properties _ hk => exact absurd hk (hnone _)
    | some k =>
      have hk := Kind.ofTag?_eq_some.1 hkind
      refine (Constraint.decides_build hk).congr ⟨fun h => ⟨hall, k, hk, h⟩, fun h => ?_⟩
        fun e => ⟨?_, fun h => ?_⟩
      · obtain ⟨k', hk', h⟩ := h.properties
        rwa [Kind.eq_of_mem_tags hk hk']
      · rintro ⟨flaw, h | ⟨hscope, h⟩, rfl⟩
        · exact .scope hall hk h
        · exact .properties hall hk hscope h
      · cases h with
        | demand hdemands hbefore hd => exact absurd (hknown hdemands) hd
        | kind _ hnone => exact absurd hk (hnone k)
        | @scope k' flaw _ hk' h =>
          cases Kind.eq_of_mem_tags hk hk'
          exact ⟨flaw, .inl h, rfl⟩
        | @properties k' flaw _ hk' hscope h =>
          cases Kind.eq_of_mem_tags hk hk'
          exact ⟨flaw, .inr ⟨hscope, h⟩, rfl⟩

theorem decides_buildConstraints (known : List String) : ∀ specs : List ConstraintSpec,
    Decides (buildConstraints known specs) (∀ spec ∈ specs, spec.WellFormed known)
      (FirstOf (ConstraintSpec.WellFormed known) (ConstraintSpec.FirstFault known) specs)
  | [] => .nil _
  | spec :: specs =>
    (decides_buildConstraint known spec).cons fun _ _ =>
      (decides_buildConstraints known specs).bind_pure _

end Problem

end Placement
