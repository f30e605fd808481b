import Placement.Engine.Recorded
import Placement.Proofs.Engine.Annotation
import Placement.Proofs.Table

/-!
# Flavors and the records of their choice

`Chooses r x name`: of the flavors that a candidate records, the one of this name is the first that
has all mandatory properties of a requirement. Under `flavor_map` and `all_directives` a candidate
records what has been chosen for it: `Equipped rs x y` says that `y` is `x` with the choices for the
requirements `rs` in their order. What is recorded there is not read again, so the choices made for
`y` are those made for `x`.
-/

namespace Placement.Recorded

variable {r : HpaRequirement} {rs rs' : List HpaRequirement} {x y z : Candidate} {name : String}

/-! ## Flavors -/

/-- The flavor has all mandatory properties that a requirement lists. -/
def Fits (r : HpaRequirement) (flavor : Table Json) : Prop :=
  ∀ p ∈ r.flavorProperties, p.isMandatory = true →
    (∀ want, p.architecture = some want →
      ∃ v, Table.get? flavor "architecture" = some v ∧ v.looseEq (.string want) = true) ∧
    ∀ a ∈ p.attributes, ∃ v, Table.get? flavor a.key = some v ∧
      a.operator.holdsValue v a.value = true

theorem flavorHas_iff {flavor : Table Json} {p : FlavorProperty} : flavorHas flavor p = true ↔
    (∀ want, p.architecture = some want →
      ∃ v, Table.get? flavor "architecture" = some v ∧ v.looseEq (.string want) = true) ∧
    ∀ a ∈ p.attributes, ∃ v, Table.get? flavor a.key = some v ∧
      a.operator.holdsValue v a.value = true := by
  unfold flavorHas
  rw [Bool.and_eq_true, List.all_eq_true]
  refine and_congr ?_ (forall₂_congr fun a _ => ?_)
  · cases p.architecture with
    | none => simp
    | some want =>
      cases Table.get? flavor "architecture" with
      | none => simp
      | some v => simp
  · cases Table.get? flavor a.key with
    | none => simp
    | some v => simp

theorem flavorMeets_iff {flavor : Table Json} : flavorMeets r flavor = true ↔ Fits r flavor := by
  unfold flavorMeets Fits
  rw [List.all_eq_true]
  simp only [List.mem_filter, and_imp, flavorHas_iff]

/-- The name is that of the first flavor of the candidate, in the order of its record, that fits the
requirement. -/
def Chooses (r : HpaRequirement) (x : Candidate) (name : String) : Prop :=
  ∃ before flavor after,
    Table.get? x.attributes "flavors" = some (.object (before ++ (name, .object flavor) :: after)) ∧
    Fits r flavor ∧ ∀ e ∈ before, ∀ other, e.2 = .object other → ¬Fits r other

theorem isMatch_iff {v : Json} :
    isMatch r v = true ↔ ∃ flavor, v = .object flavor ∧ Fits r flavor := by
  cases v with
  | object flavor => simp [isMatch, flavorMeets_iff]
  | _ => simp [isMatch]

theorem flavor?_eq_some : flavor? r x = some name ↔ Chooses r x name := by
  unfold flavor? Chooses
  split
  · next flavors hflavors =>
    rw [Option.map_eq_some_iff]
    constructor
    · rintro ⟨⟨_, v⟩, hfind, rfl⟩
      obtain ⟨hmatch, before, after, rfl, hbefore⟩ := List.find?_eq_some_iff_append.1 hfind
      obtain ⟨flavor, rfl, hfits⟩ := isMatch_iff.1 hmatch
      refine ⟨before, flavor, after, hflavors, hfits, fun e he other heq hother => ?_⟩
      have hno : isMatch r e.2 = false := by simpa using hbefore e he
      rw [isMatch_iff.2 ⟨other, heq, hother⟩] at hno
      cases hno
    · rintro ⟨before, flavor, after, hget, hfits, hbefore⟩
      cases hflavors.symm.trans hget
      refine ⟨(name, .object flavor),
        List.find?_eq_some_iff_append.2 ⟨isMatch_iff.2 ⟨flavor, rfl, hfits⟩, before, after, rfl,
          fun e he => ?_⟩, rfl⟩
      rw [Bool.not_eq_true', ← Bool.not_eq_true]
      intro hmatch
      obtain ⟨other, heq, hother⟩ := isMatch_iff.1 hmatch
      exact hbefore e he other heq hother
  · next hno =>
    refine iff_of_false (fun h => nomatch h) ?_
    rintro ⟨before, flavor, after, hget, -⟩
    exact hno _ hget

/-- Some flavor of the candidate fits the requirement. -/
def Suits (r : HpaRequirement) (x : Candidate) : Prop := ∃ name, Chooses r x name

theorem flavor?_isSome : (flavor? r x).isSome = true ↔ Suits r x := by
  rw [Option.isSome_iff_exists]
  exact exists_congr fun name => flavor?_eq_some

instance (r : HpaRequirement) (x : Candidate) : Decidable (Suits r x) :=
  decidable_of_iff _ flavor?_isSome

/-- What stands under an id once some choices have been entered: the flavor of the last requirement
with this id. -/
def entered (picks : List (HpaRequirement × String)) (id : String) : Option Json :=
  (picks.reverse.find? fun e => e.1.id == id).map fun e => .string e.2

/-- What stands under `flavor_map` before and after some choices: an object takes their entries, the
later one of two under one id, and keeps the others; any other value stays. -/
inductive Enters (picks : List (HpaRequirement × String)) : Option Json → Option Json → Prop
  | absent (hpicks : picks = []) : Enters picks none none
  | new {m : Table Json} (hpicks : picks ≠ []) (hm : ∀ id, Table.get? m id = entered picks id) :
      Enters picks none (some (.object m))
  | object {m m' : Table Json}
      (hm : ∀ id, Table.get? m' id = (entered picks id).or (Table.get? m id)) :
      Enters picks (some (.object m)) (some (.object m'))
  | other {v : Json} (hv : ∀ m, v ≠ .object m) : Enters picks (some v) (some v)

/-- What stands under `all_directives` before and after some choices: an array gets their directives
at its end, in their order; any other value stays. -/
inductive Appends (picks : List (HpaRequirement × String)) : Option Json → Option Json → Prop
  | absent (hpicks : picks = []) : Appends picks none none
  | new (hpicks : picks ≠ []) :
      Appends picks none (some (.array (picks.map fun e => directive e.1 e.2)))
  | array {ds : List Json} :
      Appends picks (some (.array ds)) (some (.array (ds ++ picks.map fun e => directive e.1 e.2)))
  | other {v : Json} (hv : ∀ ds, v ≠ .array ds) : Appends picks (some v) (some v)

/-- An entry of the directives tells of one choice: whose id and type it is, with which directives
and which flavor. It tells nothing else. -/
def Describes (r : HpaRequirement) (name : String) (entry : Json) : Prop :=
  ∃ body, entry = .object [("vnfc_directives", .array [.object body])] ∧
    Table.get? body "id" = some (.string r.id) ∧ Table.get? body "type" = some (.string r.kind) ∧
    Table.get? body "directives" = some (.array r.directives) ∧
    Table.get? body "flavor" = some (.string name) ∧
    ∀ e ∈ body, e.1 ∈ ["id", "type", "directives", "flavor"]

theorem describes_directive (r : HpaRequirement) (name : String) :
    Describes r name (directive r name) :=
  ⟨_, rfl, rfl, rfl, rfl, rfl, by simp⟩

section

variable {picks picks' : List (HpaRequirement × String)} {u v w : Option Json}

theorem entered_append (picks picks' : List (HpaRequirement × String)) (id : String) :
    entered (picks ++ picks') id = (entered picks' id).or (entered picks id) := by
  unfold entered
  rw [List.reverse_append, List.find?_append]
  cases picks'.reverse.find? fun e => e.1.id == id <;> rfl

theorem Enters.trans (h : Enters picks u v) (h' : Enters picks' v w) :
    Enters (picks ++ picks') u w := by
  cases h with
  | absent hpicks => rwa [hpicks, List.nil_append]
  | new hpicks hm =>
    cases h' with
    | object hm' =>
      refine .new (by simp [hpicks]) fun id => ?_
      rw [hm', hm, entered_append]
    | other hv => exact absurd rfl (hv _)
  | object hm =>
    cases h' with
    | object hm' =>
      refine .object fun id => ?_
      rw [hm', hm, entered_append, Option.or_assoc]
    | other hv => exact absurd rfl (hv _)
  | other hv =>
    cases h' with
    | object hm' => exact absurd rfl (hv _)
    | other _ => exact .other hv

theorem Appends.trans (h : Appends picks u v) (h' : Appends picks' v w) :
    Appends (picks ++ picks') u w := by
  cases h with
  | absent hpicks => rwa [hpicks, List.nil_append]
  | new hpicks =>
    cases h' with
    | array =>
      rw [← List.map_append]
      exact .new (by simp [hpicks])
    | other hv => exact absurd rfl (hv _)
  | array =>
    cases h' with
    | array =>
      rw [List.append_assoc, ← List.map_append]
      exact .array
    | other hv => exact absurd rfl (hv _)
  | other hv =>
    cases h' with
    | array => exact absurd rfl (hv _)
    | other _ => exact .other hv

end

section

variable {picks : List (HpaRequirement × String)} {v : Json} {w : Option Json}

theorem Enters.of_not_object (h : Enters picks (some v) w) (hv : ∀ m, v ≠ .object m) :
    w = some v := by
  cases h with
  | object _ => exact absurd rfl (hv _)
  | other _ => rfl

theorem Appends.of_not_array (h : Appends picks (some v) w) (hv : ∀ ds, v ≠ .array ds) :
    w = some v := by
  cases h with
  | array => exact absurd rfl (hv _)
  | other _ => rfl

/-- What stands under the key is as before, or an object now and an object or nothing before. -/
theorem Enters.textless {u : Option Json} (h : Enters picks u w) :
    w = u ∨ (∃ v, w = some v ∧ v.Textless) ∧ ∀ v, u = some v → v.Textless := by
  cases h with
  | absent _ => exact .inl rfl
  | new _ _ => exact .inr ⟨⟨_, rfl, Json.textless_object _⟩, fun v h => (nomatch h)⟩
  | object _ =>
    refine .inr ⟨⟨_, rfl, Json.textless_object _⟩, fun v h => ?_⟩
    cases h
    exact Json.textless_object _
  | other _ => exact .inl rfl

/-- What stands under the key is as before, or an array now and an array or nothing before. -/
theorem Appends.textless {u : Option Json} (h : Appends picks u w) :
    w = u ∨ (∃ v, w = some v ∧ v.Textless) ∧ ∀ v, u = some v → v.Textless := by
  cases h with
  | absent _ => exact .inl rfl
  | new _ => exact .inr ⟨⟨_, rfl, Json.textless_array _⟩, fun v h => (nomatch h)⟩
  | array =>
    refine .inr ⟨⟨_, rfl, Json.textless_array _⟩, fun v h => ?_⟩
    cases h
    exact Json.textless_array _
  | other _ => exact .inl rfl

/-- Where there are directives or nothing, each choice has an entry of its own behind what was
there. -/
theorem Appends.describes {u : Option Json} (h : Appends picks u w) (hpicks : picks ≠ [])
    (hu : ∀ v, u = some v → ∃ ds, v = .array ds) :
    ∃ ds more, u.getD (.array []) = .array ds ∧ w = some (.array (ds ++ more)) ∧
      List.Forall₂ (fun e entry => Describes e.1 e.2 entry) picks more := by
  have hmore : List.Forall₂ (fun e entry => Describes e.1 e.2 entry) picks
      (picks.map fun e => directive e.1 e.2) :=
    List.forall₂_map_right_iff.2 (List.forall₂_same.2 fun e _ => describes_directive e.1 e.2)
  cases h with
  | absent hnil => exact absurd hnil hpicks
  | new _ => exact ⟨[], _, rfl, rfl, hmore⟩
  | array => exact ⟨_, _, rfl, rfl, hmore⟩
  | other hv =>
    obtain ⟨ds, rfl⟩ := hu _ rfl
    exact absurd rfl (hv ds)

theorem Appends.of_array {ds : List Json} (h : Appends picks (some (.array ds)) w) :
    ∃ more, w = some (.array (ds ++ more)) := by
  cases h with
  | array => exact ⟨_, rfl⟩
  | other hno => exact absurd rfl (hno _)

end

/-- The second record is the first one with some choices entered. -/
structure Annotated (picks : List (HpaRequirement × String)) (x y : Candidate) : Prop where
  rest : y = { x with attributes := y.attributes }
  unchanged : picks = [] → y = x
  others : ∀ key, key ∉ annotationKeys → Table.get? y.attributes key = Table.get? x.attributes key
  flavorMap : Enters picks (Table.get? x.attributes "flavor_map")
    (Table.get? y.attributes "flavor_map")
  directives : Appends picks (Table.get? x.attributes "all_directives")
    (Table.get? y.attributes "all_directives")

namespace Annotated

variable {picks picks' : List (HpaRequirement × String)}

theorem refl (x : Candidate) : Annotated [] x x := by
  refine ⟨rfl, fun _ => rfl, fun _ _ => rfl, ?_, ?_⟩
  · rcases h : Table.get? x.attributes "flavor_map" with _ | v
    · exact .absent rfl
    · cases v with
      | object m => exact .object fun id => rfl
      | _ => exact .other fun m h => nomatch h
  · rcases h : Table.get? x.attributes "all_directives" with _ | v
    · exact .absent rfl
    · cases v with
      | array ds =>
        have harray : Appends [] (some (.array ds)) (some (.array (ds ++ []))) := .array
        rwa [List.append_nil] at harray
      | _ => exact .other fun m h => nomatch h

theorem trans (h : Annotated picks x y) (h' : Annotated picks' y z) :
    Annotated (picks ++ picks') x z := by
  refine ⟨?_, fun hnil => ?_, fun key hkey => (h'.others key hkey).trans (h.others key hkey),
    h.flavorMap.trans h'.flavorMap, h.directives.trans h'.directives⟩
  · rw [h'.rest, h.rest]
  · obtain ⟨hpicks, hpicks'⟩ := List.append_eq_nil_iff.1 hnil
    rw [h'.unchanged hpicks', h.unchanged hpicks]

/-- The annotations can be read neither as numbers nor as texts. -/
theorem annotates (h : Annotated picks x y) : Annotates x y := by
  refine ⟨h.rest, fun key => ?_⟩
  by_cases hkey : key ∈ annotationKeys
  · rcases List.mem_cons.1 hkey with rfl | hlast
    · exact h.flavorMap.textless.imp id fun htextless => ⟨hkey, htextless⟩
    · cases List.mem_singleton.1 hlast
      exact h.directives.textless.imp id fun htextless => ⟨hkey, htextless⟩
  · exact .inl (h.others key hkey)

/-- The annotations do not bear on the flavors. -/
theorem chooses_iff (h : Annotated picks x y) : Chooses r y name ↔ Chooses r x name := by
  unfold Chooses
  rw [h.others "flavors" (by decide)]

end Annotated

/-! ## One choice -/

section

variable {key : String}

theorem get?_enterFlavor_of_ne (r : HpaRequirement) (name : String) (t : Table Json)
    (hkey : key ≠ "flavor_map") :
    Table.get? (enterFlavor r name t) key = Table.get? t key := by
  unfold enterFlavor
  split
  · rw [Table.get?_put, if_neg hkey]
  · rw [Table.get?_put, if_neg hkey]
  · rfl

theorem get?_appendDirective_of_ne (r : HpaRequirement) (name : String) (t : Table Json)
    (hkey : key ≠ "all_directives") :
    Table.get? (appendDirective r name t) key = Table.get? t key := by
  unfold appendDirective
  split
  · rw [Table.get?_put, if_neg hkey]
  · rw [Table.get?_put, if_neg hkey]
  · rfl

theorem entered_singleton (r : HpaRequirement) (name id : String) :
    entered [(r, name)] id = if id = r.id then some (.string name) else none := by
  unfold entered
  by_cases hid : id = r.id
  · simp [hid]
  · simp [hid, Ne.symm hid]

theorem enters_enterFlavor (r : HpaRequirement) (name : String) (t : Table Json) :
    Enters [(r, name)] (Table.get? t "flavor_map")
      (Table.get? (enterFlavor r name t) "flavor_map") := by
  unfold enterFlavor
  split
  · next hnone =>
    rw [hnone, Table.get?_put_self]
    refine .new (by simp) fun id => ?_
    rw [entered_singleton, Table.get?, Table.get?_nil]
  · next m hm =>
    rw [hm, Table.get?_put_self]
    refine .object fun id => ?_
    rw [entered_singleton, Table.get?_put]
    by_cases hid : id = r.id
    · rw [if_pos hid, if_pos hid]
      rfl
    · rw [if_neg hid, if_neg hid]
      rfl
  · next v hno hv =>
    rw [hv]
    exact .other fun m hm => hno m (hm ▸ rfl)

theorem appends_appendDirective (r : HpaRequirement) (name : String) (t : Table Json) :
    Appends [(r, name)] (Table.get? t "all_directives")
      (Table.get? (appendDirective r name t) "all_directives") := by
  unfold appendDirective
  split
  · next hnone =>
    rw [hnone, Table.get?_put_self]
    exact .new (by simp)
  · next ds hds =>
    rw [hds, Table.get?_put_self]
    exact .array
  · next v hno hv =>
    rw [hv]
    exact .other fun ds hds => hno ds (hds ▸ rfl)

end

theorem annotated_annotate (r : HpaRequirement) (name : String) (x : Candidate) :
    Annotated [(r, name)] x (annotate r name x) := by
  refine ⟨rfl, fun h => (nomatch h), fun key hkey => ?_, ?_, ?_⟩
  · have hmap : key ≠ "flavor_map" := fun h => hkey (by simp [annotationKeys, h])
    have hdirectives : key ≠ "all_directives" := fun h => hkey (by simp [annotationKeys, h])
    exact (get?_appendDirective_of_ne r name _ hdirectives).trans
      (get?_enterFlavor_of_ne r name _ hmap)
  · have hmap := enters_enterFlavor r name x.attributes
    rwa [← get?_appendDirective_of_ne r name (enterFlavor r name x.attributes) (by decide)] at hmap
  · have hdirectives := appends_appendDirective r name (enterFlavor r name x.attributes)
    rwa [get?_enterFlavor_of_ne r name x.attributes (by decide)] at hdirectives

/-! ## Several choices -/

/-- The second record is the first one with the flavors that it chooses for some requirements. -/
def Equipped (rs : List HpaRequirement) (x y : Candidate) : Prop :=
  ∃ picks : List (HpaRequirement × String), picks.map Prod.fst = rs ∧
    (∀ e ∈ picks, Chooses e.1 x e.2) ∧
    Annotated picks x y

namespace Equipped

theorem refl (x : Candidate) : Equipped [] x x := ⟨[], rfl, List.forall_mem_nil _, .refl x⟩

theorem trans (h : Equipped rs x y) (h' : Equipped rs' y z) : Equipped (rs ++ rs') x z := by
  obtain ⟨picks, rfl, hpicks, hxy⟩ := h
  obtain ⟨picks', rfl, hpicks', hyz⟩ := h'
  refine ⟨picks ++ picks', List.map_append, ?_, hxy.trans hyz⟩
  exact List.forall_mem_append.2 ⟨hpicks, fun e he => hxy.chooses_iff.1 (hpicks' e he)⟩

theorem suits_iff (h : Equipped rs x y) : Suits r y ↔ Suits r x := by
  obtain ⟨picks, -, -, hxy⟩ := h
  exact exists_congr fun name => hxy.chooses_iff

theorem eq_of_nil (h : Equipped [] x y) : y = x := by
  obtain ⟨picks, hnil, -, hxy⟩ := h
  exact hxy.unchanged (List.map_eq_nil_iff.1 hnil)

theorem annotates (h : Equipped rs x y) : Annotates x y := by
  obtain ⟨picks, -, -, hxy⟩ := h
  exact hxy.annotates

/-- For each requirement, in their order, the directives have got an entry that tells of it and of
the flavor that the candidate chooses for it. -/
theorem describes (h : Equipped rs x y) (hrs : rs ≠ [])
    (hx : ∀ v, Table.get? x.attributes "all_directives" = some v → ∃ ds, v = .array ds) :
    ∃ ds more, (Table.get? x.attributes "all_directives").getD (.array []) = .array ds ∧
      Table.get? y.attributes "all_directives" = some (.array (ds ++ more)) ∧
      List.Forall₂ (fun r entry => ∃ name, Chooses r x name ∧ Describes r name entry) rs more := by
  obtain ⟨picks, rfl, hchooses, hxy⟩ := h
  have hpicks : picks ≠ [] := fun hnil => hrs (List.map_eq_nil_iff.2 hnil)
  obtain ⟨ds, more, hbefore, hafter, hmore⟩ := hxy.directives.describes hpicks hx
  refine ⟨ds, more, hbefore, hafter, List.forall₂_map_left_iff.2 ?_⟩
  refine ((List.forall₂_and_left _ _).2 ⟨hchooses, hmore⟩).imp ?_
  rintro ⟨r, name⟩ entry ⟨hname, hentry⟩
  exact ⟨name, hname, hentry⟩

end Equipped

theorem equipped_annotate (h : Chooses r x name) : Equipped [r] x (annotate r name x) :=
  ⟨[(r, name)], rfl, List.forall_mem_singleton.2 h, annotated_annotate r name x⟩

end Placement.Recorded
