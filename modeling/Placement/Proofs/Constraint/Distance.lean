import Placement.Proofs.Constraint.WellFormed
import Placement.Proofs.Decimal.Literal
import Placement.Proofs.Engine.Stateless
import Placement.Proofs.Record.Candidate

/-!
# The two forms of a distance

A distance is written as a text or as an object. The text consists of a comparator, a literal and
perhaps a unit, with blanks of any kind between and around them and keywords in any letter case.
Whichever form a rule is given in, the constraint is accepted if its bound is finite and not
negative, and it then lets through the same candidates.
-/

namespace Placement

/-! ## Keywords -/

namespace Text

variable {w : List Char}

/-- The word is one of the keywords, in any letter case. -/
def Spelled (keywords : List String) (w : List Char) : Prop :=
  ∃ keyword ∈ keywords, List.Forall₂ AnyCase w keyword.toList

/-- A search for what a word spells, where no keyword stands for two things. -/
theorem find?_spelled {α : Type} {all : List α} {spellings : α → List String} {a : α}
    (hall : ∀ a, a ∈ all) (hkeywords : ∀ a, ∀ s ∈ spellings a, Keyword s)
    (hdisjoint : ∀ a b, ∀ s ∈ spellings a, s ∈ spellings b → a = b)
    (hw : ∀ c ∈ w, isBlank c = false) :
    (all.find? fun a => (spellings a).any (spells (trimmed w))) = some a ↔
      Spelled (spellings a) w := by
  have hspells : ∀ a, (spellings a).any (spells (trimmed w)) = true ↔
      ∃ s ∈ spellings a, spells w s = true := by
    intro a
    rw [Decimal.trimmed_eq_self hw, List.any_eq_true]
  rw [find?_eq_some_of_unique hall, hspells]
  · exact exists_congr fun s => and_congr_right fun hs => spells_iff (hkeywords a s hs)
  · intro a b ha hb
    obtain ⟨s, hs, hws⟩ := (hspells a).1 ha
    obtain ⟨t, ht, hwt⟩ := (hspells b).1 hb
    have hst : s = t := String.toList_injective ((beq_iff_eq.1 hws).symm.trans (beq_iff_eq.1 hwt))
    exact hdisjoint a b s hs (hst ▸ ht)

end Text

theorem Comparator.spellings_disjoint :
    ∀ a b : Comparator, ∀ s ∈ a.spellings, s ∈ b.spellings → a = b := by
  intro a b
  cases a <;> cases b <;> decide

theorem Comparator.parse?_eq_some {w : List Char} {c : Comparator}
    (hw : ∀ k ∈ w, Text.isBlank k = false) :
    parse? w = some c ↔ Text.Spelled c.spellings w :=
  Text.find?_spelled (fun c => by cases c <;> decide)
    (fun c => by cases c <;> decide) spellings_disjoint hw

theorem DistanceUnit.parse?_eq_some {w : List Char} {u : DistanceUnit}
    (hw : ∀ k ∈ w, Text.isBlank k = false) :
    parse? w = some u ↔ Text.Spelled u.spellings w :=
  Text.find?_spelled (fun u => by cases u <;> decide) (fun u => by cases u <;> decide)
    (fun a b => by cases a <;> cases b <;> decide) hw

namespace DistanceRule

variable {r : DistanceRule} {ws : List (List Char)} {text : String}

/-! ## The compact form -/

/-- The words that stand for a rule. -/
inductive Words (r : DistanceRule) : List (List Char) → Prop
  | bare {c v : List Char} :
      Text.Spelled r.operator.spellings c → Decimal.Literal v r.value → r.unit = .km →
      Words r [c, v]
  | unit {c v u : List Char} : Text.Spelled r.operator.spellings c → Decimal.Literal v r.value →
      Text.Spelled r.unit.spellings u → Words r [c, v, u]

/-- The text consists of such words. -/
def Compact (r : DistanceRule) (cs : List Char) : Prop := ∃ ws, Text.Spaced ws cs ∧ r.Words ws

theorem ofWords?_eq_some (hws : ∀ w ∈ ws, ∀ c ∈ w, Text.isBlank c = false) :
    ofWords? ws = some r ↔ r.Words ws := by
  constructor
  · intro h
    unfold ofWords? at h
    split at h
    · obtain ⟨operator, hc, h⟩ := Option.bind_eq_some_iff.1 h
      obtain ⟨value, hv, h⟩ := Option.bind_eq_some_iff.1 h
      cases h
      exact .bare ((Comparator.parse?_eq_some (hws _ (by simp))).1 hc)
        (Decimal.readFloat_eq_some.1 hv) rfl
    · obtain ⟨operator, hc, h⟩ := Option.bind_eq_some_iff.1 h
      obtain ⟨value, hv, h⟩ := Option.bind_eq_some_iff.1 h
      obtain ⟨unit, hu, h⟩ := Option.bind_eq_some_iff.1 h
      cases h
      exact .unit ((Comparator.parse?_eq_some (hws _ (by simp))).1 hc)
        (Decimal.readFloat_eq_some.1 hv)
        ((DistanceUnit.parse?_eq_some (hws _ (by simp))).1 hu)
    · cases h
  · rintro (⟨hc, hv, hu⟩ | ⟨hc, hv, hu⟩)
    · rw [ofWords?, (Comparator.parse?_eq_some (hws _ (by simp))).2 hc,
        Decimal.readFloat_eq_some.2 hv, ← hu]
      rfl
    · rw [ofWords?, (Comparator.parse?_eq_some (hws _ (by simp))).2 hc,
        Decimal.readFloat_eq_some.2 hv, (DistanceUnit.parse?_eq_some (hws _ (by simp))).2 hu]
      rfl

theorem parse?_eq_some : parse? text = some r ↔ r.Compact text.toList := by
  unfold parse? Compact
  constructor
  · intro h
    have hspaced := Text.words_eq_iff.1 (Eq.refl (Text.words text.toList))
    exact ⟨_, hspaced, (ofWords?_eq_some hspaced.solid).1 h⟩
  · rintro ⟨ws, hspaced, hwords⟩
    rw [Text.words_eq_iff.2 hspaced]
    exact (ofWords?_eq_some hspaced.solid).2 hwords

end DistanceRule

/-! ## The structured form -/

theorem Reader.choice_string {α : Type} {choose : String → Option α} {m : Medium}
    {s : String} {a : α} (h : choose s = some a) : Reader.choice choose m (.string s) = .ok a := by
  unfold Reader.choice
  simp only [h]

theorem Comparator.ofName?_eq_some {s : String} {c : Comparator} :
    ofName? s = some c ↔ s ∈ c.spellings := by
  unfold ofName?
  rw [find?_eq_some_of_unique (fun c => by cases c <;> decide)]
  · exact List.contains_iff_mem
  · intro a b ha hb
    exact spellings_disjoint a b s (List.contains_iff_mem.1 ha) (List.contains_iff_mem.1 hb)

/-- How a unit is written as a field. -/
def DistanceUnit.fieldNames : DistanceUnit → List String
  | km => ["km"]
  | mi => ["mi", "miles"]

theorem DistanceUnit.ofName?_eq_some {s : String} {u : DistanceUnit} :
    ofName? s = some u ↔ s ∈ u.fieldNames := by
  unfold ofName?
  constructor
  · intro h
    split at h
    · next hs =>
      cases h
      simp [fieldNames, hs]
    · split at h
      · next hs =>
        cases h
        simpa [fieldNames] using hs
      · cases h
  · cases u with
    | km =>
      intro h
      rw [if_pos (List.mem_singleton.1 h)]
    | mi =>
      intro h
      simp only [fieldNames, List.mem_cons, List.not_mem_nil, or_false] at h
      rcases h with rfl | rfl
      · rfl
      · rfl

namespace DistanceRule

/-- The fields that stand for a rule; without a unit it is in kilometres. -/
structure Structured (r : DistanceRule) (fields : Table Json) : Prop where
  value : ∃ n, Table.get? fields "value" = some (.number n) ∧ n.toFloat = r.value
  operator : ∃ s ∈ r.operator.spellings, Table.get? fields "operator" = some (.string s)
  unit : (Table.get? fields "unit" = none ∧ r.unit = .km) ∨
    ∃ s ∈ r.unit.fieldNames, Table.get? fields "unit" = some (.string s)

theorem Structured.value_eq_ok {fields : Table Json} (h : r.Structured fields)
    (hkeys : (fields.map Prod.fst).Nodup) :
    Reader.value shape.read (.object fields) = .ok r := by
  obtain ⟨n, hvalue, hn⟩ := h.value
  obtain ⟨c, hc, hoperator⟩ := h.operator
  refine Record.value_eq_ok.2 (Finding.map_eq_found.2 ⟨(r.value, r.operator, r.unit), ?_, rfl⟩)
  refine Record.and_eq_found.2 ⟨?_, Record.and_eq_found.2 ⟨?_, ?_⟩⟩
  · exact (Record.field_eq_found hkeys).2 (.inl ⟨_, hvalue, congrArg Except.ok hn⟩)
  · refine (Record.field_eq_found hkeys).2 (.inl ⟨_, hoperator, ?_⟩)
    exact Reader.choice_string (Comparator.ofName?_eq_some.2 hc)
  · refine (Record.field_eq_found hkeys).2 ?_
    rcases h.unit with ⟨habsent, hkm⟩ | ⟨u, hu, hunit⟩
    · exact .inr ⟨habsent, congrArg some hkm.symm⟩
    · exact .inl ⟨_, hunit, Reader.choice_string (DistanceUnit.ofName?_eq_some.2 hu)⟩

end DistanceRule

/-- The properties give a rule, in one form or the other, perhaps beside fields for other
purposes. -/
inductive DistanceRule.Given (r : DistanceRule) : Json → Prop
  | compact {properties : Table Json} {text : String} :
      Table.get? properties "distance" = some (.string text) →
      r.Compact text.toList → Given r (.object properties)
  | structured {properties fields : Table Json} :
      Table.get? properties "distance" = some (.object fields) →
      r.Structured fields → Given r (.object properties)

/-- The bound of a rule that is refused. -/
def DistanceRule.Unbounded (r : DistanceRule) : Prop :=
  r.value < 0.0 ∨ (r.value = Decimal.infinity ∨ r.value = -Decimal.infinity) ∨ r.value.isNaN = true

theorem DistanceRule.isBounded_iff {r : DistanceRule} : r.isBounded = true ↔ ¬ r.Unbounded := by
  have hinfinities : Decimal.infinity.isFinite = false ∧ (-Decimal.infinity).isFinite = false := by
    decide +kernel
  unfold isBounded Unbounded
  rw [Bool.and_eq_true, Bool.not_eq_true', decide_eq_false_iff_not]
  constructor
  · rintro ⟨hfinite, hnonneg⟩ (hneg | (hinf | hinf) | hnan)
    · exact hnonneg hneg
    · exact Bool.false_ne_true (hinfinities.1.symm.trans (hinf ▸ hfinite))
    · exact Bool.false_ne_true (hinfinities.2.symm.trans (hinf ▸ hfinite))
    · exact Bool.false_ne_true ((Decimal.isNaN_of_isFinite hfinite).symm.trans hnan)
  · intro h
    obtain ⟨hnonneg, h⟩ := not_or.1 h
    obtain ⟨hinf, hnan⟩ := not_or.1 h
    rcases Decimal.nan_or_finite_or_infinite r.value with hvalue | hvalue | hvalue
    · exact absurd hvalue hnan
    · exact ⟨hvalue, hnonneg⟩
    · exact absurd hvalue hinf

namespace Rule

variable {r : DistanceRule} {spec : DistanceSpec}

theorem readProperties_distance {properties : Table Json} {v : Json}
    (hproper : (Json.object properties).Proper) (hget : Table.get? properties "distance" = some v)
    (hspec : DistanceSpec.reader .memory (Draft.ofJson v) = .ok spec) :
    readProperties (Record.required "distance" DistanceSpec.reader) (.object properties) =
      .ok spec := by
  have hvalue :
      Reader.value (Record.required "distance" DistanceSpec.reader).read (.object properties) =
        .ok spec :=
    Record.value_eq_ok.2 ((Record.field_eq_found hproper.keys).2 (.inl ⟨v, hget, hspec⟩))
  unfold readProperties
  rw [hvalue]
  rfl

/-- What is read from the properties in either form is a distance that stands for the rule. -/
theorem exists_spec {properties : Json} (h : r.Given properties) (hproper : properties.Proper) :
    ∃ spec, readProperties (Record.required "distance" DistanceSpec.reader) properties = .ok spec ∧
      ofDistance spec = .ok r := by
  cases h with
  | @compact fields text hget htext =>
    refine ⟨.compact text, readProperties_distance hproper hget rfl, ?_⟩
    unfold ofDistance
    simp only [DistanceRule.parse?_eq_some.2 htext]
  | @structured fields distance hget hdistance =>
    have hvalue : DistanceRule.shape.read .memory (Draft.ofJson (.object distance)) = .ok r :=
      hdistance.value_eq_ok (hproper.get? hget).keys
    refine ⟨.structured r, readProperties_distance hproper hget ?_, rfl⟩
    rw [Draft.ofJson] at hvalue ⊢
    unfold DistanceSpec.reader
    simp only [hvalue]

/-- The check of the bound comes after both forms. -/
theorem read_distance {properties : Json} (h : r.Given properties) (hproper : properties.Proper) :
    read .distance properties = if r.isBounded then .ok (.distance r)
      else .error .negativeDistance := by
  obtain ⟨spec, hspec, hrule⟩ := exists_spec h hproper
  change readDistance properties = _
  unfold readDistance
  rw [hspec]
  change (ofDistance spec >>= _) = _
  rw [hrule]
  rfl

end Rule

/-! ## Constraints from either form -/

theorem Json.proper_distance (operator unit : String) {n : Number} (h : n.Proper) :
    (Json.object [("operator", .string operator), ("unit", .string unit),
      ("value", .number n)]).Proper := by
  have hascending : List.Pairwise (· < ·) ["operator", "unit", "value"] := by decide
  refine .object (List.pairwise_map.1 hascending) ?_
  simp only [List.forall_mem_cons]
  exact ⟨.string _, .string _, .number h, List.forall_mem_nil _⟩

/-- Of the doubles the structured form can express the finite ones. -/
theorem DistanceRule.exists_structured_iff {r : DistanceRule} :
    (∃ fields, (Json.object fields).Proper ∧ r.Structured fields) ↔ r.value.isFinite = true := by
  constructor
  · rintro ⟨fields, hproper, h⟩
    obtain ⟨n, hget, hn⟩ := h.value
    cases hproper.get? hget with
    | number hproper => exact hn ▸ hproper.isFinite_toFloat
  · intro hfinite
    have hproper : (Number.real r.value).Proper := hfinite
    refine ⟨_, Json.proper_distance r.operator.name r.unit.name hproper, ?_⟩
    exact
      { value := ⟨.real r.value, rfl, rfl⟩
        operator := ⟨r.operator.name, by cases r.operator <;> decide, rfl⟩
        unit := .inr ⟨r.unit.name, by cases r.unit <;> decide, rfl⟩ }

namespace Constraint

variable {r : DistanceRule} {spec : ConstraintSpec}

theorem build_distance (hkind : spec.kind ∈ Kind.distance.tags) (hproper : spec.properties.Proper)
    (h : r.Given spec.properties) (hscope : Kind.distance.Spans spec.demands) :
    build spec =
      if r.isBounded then .ok ⟨spec.name, spec.demands,
        spec.priority.getD Kind.distance.defaultPriority, .distance r⟩
      else .error (.invalidConstraint spec.name .negativeDistance) := by
  obtain ⟨u, hu⟩ := (Kind.distance.decides_checkScope spec.demands).ok.2 hscope
  unfold build
  rw [Kind.ofTag?_eq_some.2 hkind]
  dsimp only
  rw [hu, Rule.read_distance h hproper]
  cases r.isBounded with
  | true => rfl
  | false => rfl

/-- Who gives a rule, in whichever form, is accepted exactly where the scope and the bound are in
order. -/
theorem build_distance_iff (hkind : spec.kind ∈ Kind.distance.tags)
    (hproper : spec.properties.Proper) (h : r.Given spec.properties) : (∃ c, build spec = .ok c) ↔
      Kind.distance.Spans spec.demands ∧ ¬ r.Unbounded := by
  constructor
  · rintro ⟨c, hc⟩
    have hscope := ((decides_build hkind).ok.1 ⟨c, hc⟩).1
    rw [build_distance hkind hproper h hscope] at hc
    refine ⟨hscope, DistanceRule.isBounded_iff.1 ?_⟩
    cases hbounded : r.isBounded with
    | true => rfl
    | false =>
      rw [hbounded] at hc
      cases hc
  · rintro ⟨hscope, hbounded⟩
    rw [build_distance hkind hproper h hscope, if_pos (DistanceRule.isBounded_iff.2 hbounded)]
    exact ⟨_, rfl⟩

/-- What has been built is the rule over the scope. -/
theorem eq_of_build_distance {c : Constraint} (hkind : spec.kind ∈ Kind.distance.tags)
    (hproper : spec.properties.Proper) (h : r.Given spec.properties) (hc : build spec = .ok c) :
    c.rule = .distance r ∧ c.demands = spec.demands := by
  obtain ⟨hscope, hbounded⟩ := (build_distance_iff hkind hproper h).1 ⟨c, hc⟩
  rw [build_distance hkind hproper h hscope, if_pos (DistanceRule.isBounded_iff.2 hbounded)] at hc
  cases hc
  exact ⟨rfl, rfl⟩

/-- Neither the name of a distance constraint nor its priority matters to what it lets through. -/
theorem filter_distance_congr {c c' : Constraint} (hrule : c.rule = .distance r)
    (hrule' : c'.rule = .distance r) (hdemands : c.demands = c'.demands) (p : Path)
    (pool : List Candidate) : c.filter p pool = c'.filter p pool := by
  unfold filter keepDistant decidedSiblings
  rw [hrule, hrule', hdemands]

/-- The compact form is a comparator, a literal and perhaps a unit, and nothing else; the structured
form has the finite bounds. Two descriptors over one scope that give the same rule, each in either
form, are accepted or refused together, and refused for a bound that is negative, infinite or no
number; where they are accepted they let through the same. -/
theorem distance_forms_agree :
    (∀ text r, DistanceRule.parse? text = some r ↔ r.Compact text.toList) ∧
    (∀ r : DistanceRule, (∃ fields, (Json.object fields).Proper ∧ r.Structured fields) ↔
      r.value.isFinite = true) ∧
    (∀ (spec : ConstraintSpec) (r : DistanceRule), spec.kind ∈ Kind.distance.tags →
      Kind.distance.Spans spec.demands →
      spec.properties.Proper → r.Given spec.properties →
      Decides (build spec) (¬ r.Unbounded) fun e =>
        r.Unbounded ∧ e = .invalidConstraint spec.name .negativeDistance) ∧
    ∀ (spec spec' : ConstraintSpec) (r : DistanceRule), spec.kind ∈ Kind.distance.tags →
      spec'.kind ∈ Kind.distance.tags → spec.demands = spec'.demands → spec.properties.Proper →
      spec'.properties.Proper → r.Given spec.properties → r.Given spec'.properties →
      ((∃ c, build spec = .ok c) ↔ ∃ c', build spec' = .ok c') ∧
      ∀ c c', build spec = .ok c → build spec' = .ok c' →
        c.rule = .distance r ∧ c'.rule = .distance r ∧
        ∀ p pool, c.filter p pool = c'.filter p pool ∧
          ∀ {σ : Type} (engine : Engine σ), engine.Stateless → ∀ s s',
            (c.filter p pool).outcome engine s = (c'.filter p pool).outcome engine s' := by
  refine ⟨fun _ _ => DistanceRule.parse?_eq_some,
    fun _ => DistanceRule.exists_structured_iff, ?_, ?_⟩
  · intro spec r hkind hscope hproper h
    rw [build_distance hkind hproper h hscope]
    refine (Decides.ite _ _).congr DistanceRule.isBounded_iff fun e => and_congr_left fun _ => ?_
    rw [DistanceRule.isBounded_iff, Classical.not_not]
  · intro spec spec' r hkind hkind' hdemands hproper hproper' h h'
    constructor
    · rw [build_distance_iff hkind hproper h, build_distance_iff hkind' hproper' h', hdemands]
    · intro c c' hc hc'
      obtain ⟨hrule, hscope⟩ := eq_of_build_distance hkind hproper h hc
      obtain ⟨hrule', hscope'⟩ := eq_of_build_distance hkind' hproper' h' hc'
      refine ⟨hrule, hrule', fun p pool => ?_⟩
      have hfilter :=
        filter_distance_congr hrule hrule' (hscope.trans (hdemands.trans hscope'.symm)) p pool
      refine ⟨hfilter, fun engine he s s' => ?_⟩
      rw [hfilter]
      exact Consult.result_congr he s s'

/-- Under 250 miles, as a text. -/
def nearby : ConstraintSpec :=
  { name := "nearby"
    kind := "cloud_distance"
    demands := ["core", "edge"]
    priority := none
    properties := .object [("distance", .string "\tLT 2.5e2\u3000Miles ")] }

/-- The same bound by its fields. -/
def within : ConstraintSpec :=
  { name := "within"
    kind := "distance_between_demands"
    demands := ["core", "edge"]
    priority := some 3
    properties := .object
      [("distance",
        .object [("operator", .string "<"), ("unit", .string "mi"), ("value", .int 250)])] }

theorem distance_forms_agree_nearby :
    ∃ c c', build nearby = .ok c ∧ build within = .ok c' ∧
      ∀ p pool, c.filter p pool = c'.filter p pool := by
  obtain ⟨hparse, -, hdecides, hagree⟩ := distance_forms_agree
  have hscope : Kind.distance.Spans nearby.demands :=
    ⟨by decide, fun _ => ⟨"core", by decide, "edge", by decide⟩⟩
  have hproper : nearby.properties.Proper :=
    .object (List.pairwise_singleton _ _) (List.forall_mem_singleton.2 (.string _))
  have hproper' : within.properties.Proper :=
    .object (List.pairwise_singleton _ _)
      (List.forall_mem_singleton.2 (Json.proper_distance "<" "mi" ⟨by decide, by decide⟩))
  have hcompact : DistanceRule.Given ⟨250.0, .lt, .mi⟩ nearby.properties :=
    .compact rfl ((hparse _ _).1 rfl)
  have hstructured : DistanceRule.Given ⟨250.0, .lt, .mi⟩ within.properties :=
    .structured rfl ⟨⟨.int 250, rfl, rfl⟩, ⟨"<", by decide, rfl⟩, .inr ⟨"mi", by decide, rfl⟩⟩
  have hbounded : ¬ DistanceRule.Unbounded ⟨250.0, .lt, .mi⟩ :=
    DistanceRule.isBounded_iff.1 (by decide +kernel)
  obtain ⟨htogether, hsame⟩ :=
    hagree nearby within _ (by decide) (by decide) rfl hproper hproper' hcompact hstructured
  obtain ⟨c, hc⟩ := (hdecides nearby _ (by decide) hscope hproper hcompact).ok.2 hbounded
  obtain ⟨c', hc'⟩ := htogether.1 ⟨c, hc⟩
  exact ⟨c, c', hc, hc', fun p pool => ((hsame c c' hc hc').2.2 p pool).1⟩

end Constraint

end Placement
