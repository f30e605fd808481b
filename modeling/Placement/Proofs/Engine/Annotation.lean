import Placement.Candidate

/-!
# What an annotation leaves alone

The engine that answers from the records enters a chosen flavor under `flavor_map` and under
`all_directives`. Both hold an object or an array then, which reads neither as a number nor as a
text, and held nothing else of use before. So whatever is read off a candidate as a number or a text
is the same after it has been annotated.
-/

namespace Placement

/-- The value reads neither as a number nor as a text. -/
def Json.Textless (v : Json) : Prop := v.number? = none ∧ v.text? = none

namespace Json

variable {v w : Json}

theorem textless_object (fields : List (String × Json)) : (object fields).Textless := ⟨rfl, rfl⟩

theorem textless_array (items : List Json) : (array items).Textless := ⟨rfl, rfl⟩

theorem looseEq_congr (hn : v.number? = w.number?) (ht : v.text? = w.text?) (o : Json) :
    v.looseEq o = w.looseEq o := by
  unfold looseEq
  rw [hn, ht]

end Json

/-- The keys under which a chosen flavor is entered. -/
def annotationKeys : List String := ["flavor_map", "all_directives"]

/-- The second record is the first one, but for textless attributes under the annotation keys. -/
structure Annotates (x y : Candidate) : Prop where
  rest : y = { x with attributes := y.attributes }
  attributes : ∀ key, Table.get? y.attributes key = Table.get? x.attributes key ∨
    key ∈ annotationKeys ∧ (∃ v, Table.get? y.attributes key = some v ∧ v.Textless) ∧
      ∀ v, Table.get? x.attributes key = some v → v.Textless

namespace Annotates

variable {x y : Candidate}

theorem id_eq (h : Annotates x y) : y.id = x.id := by rw [h.rest]

theorem inventoryType_eq (h : Annotates x y) : y.inventoryType = x.inventoryType := by rw [h.rest]

theorem attribute? (h : Annotates x y) (key : String) : y.attribute? key = x.attribute? key ∨
    (∃ v, y.attribute? key = some v ∧ v.Textless) ∧
    ∀ v, x.attribute? key = some v → v.Textless := by
  have htable := h.attributes key
  rw [h.rest]
  unfold Candidate.attribute?
  by_cases hid : key = "candidate_id"
  · left
    rw [if_pos hid, if_pos hid]
  by_cases hprovider : key = "inventory_provider"
  · left
    rw [if_neg hid, if_neg hid, if_pos hprovider, if_pos hprovider]
  by_cases htype : key = "inventory_type"
  · left
    rw [if_neg hid, if_neg hid, if_neg hprovider, if_neg hprovider, if_pos htype, if_pos htype]
  by_cases hcost : key = "cost"
  · left
    rw [if_neg hid, if_neg hid, if_neg hprovider, if_neg hprovider, if_neg htype, if_neg htype,
      if_pos hcost, if_pos hcost]
  simp only [hid, hprovider, htype, hcost, if_false]
  exact htable.imp (fun heq => heq) And.right

theorem number? (h : Annotates x y) (key : String) : y.number? key = x.number? key := by
  unfold Candidate.number?
  rcases h.attribute? key with heq | ⟨⟨v, hv, htextless⟩, hx⟩
  · rw [heq]
  · rw [hv, Option.bind_some, htextless.1]
    cases hk : x.attribute? key with
    | none => rfl
    | some w => exact (hx w hk).1.symm

theorem text? (h : Annotates x y) (key : String) : y.text? key = x.text? key := by
  unfold Candidate.text?
  rcases h.attribute? key with heq | ⟨⟨v, hv, htextless⟩, hx⟩
  · rw [heq]
  · rw [hv, Option.bind_some, htextless.2]
    cases hk : x.attribute? key with
    | none => rfl
    | some w => exact (hx w hk).2.symm

/-- An attribute that is there stays there and reads as it did. -/
theorem exists_attribute (h : Annotates x y) {key : String} {v : Json}
    (hv : x.attribute? key = some v) :
    ∃ w, y.attribute? key = some w ∧ w.number? = v.number? ∧ w.text? = v.text? := by
  rcases h.attribute? key with heq | ⟨⟨w, hw, hnumber, htext⟩, hx⟩
  · exact ⟨v, heq.trans hv, rfl, rfl⟩
  · obtain ⟨hnumber', htext'⟩ := hx v hv
    exact ⟨w, hw, hnumber.trans hnumber'.symm, htext.trans htext'.symm⟩

theorem get?_of_not_mem (h : Annotates x y) {key : String} (hkey : key ∉ annotationKeys) :
    Table.get? y.attributes key = Table.get? x.attributes key :=
  (h.attributes key).resolve_right fun hk => hkey hk.1

end Annotates

end Placement
