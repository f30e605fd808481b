import Placement.Candidate
import Placement.Proofs.Decimal.Bounded
import Placement.Proofs.Record.Fields

/-!
# Candidates as records

The four identity fields and the attributes of a candidate share the keys of one object. Reading
takes the identity fields out and leaves all others as they are, and writing puts them back where
they were.
-/

namespace Placement

theorem Number.Proper.isFinite_toFloat {n : Number} (h : n.Proper) : n.toFloat.isFinite = true := by
  cases n with
  | int i =>
    obtain ⟨hleast, hgreatest⟩ := h
    have hmin : Int64.minValue.toInt = -2 ^ 63 := by decide
    have hsize : UInt64.size = 2 ^ 64 := by decide
    exact Decimal.isFinite_ofInt (by omega)
  | real x => exact h

/-! ## Candidates -/

namespace Candidate

variable {fields : Table Json} {c : Candidate} {m : Medium}

/-- The candidate that a record with some fields is read as. -/
structure ReadFrom (fields : Table Json) (c : Candidate) : Prop where
  id : Table.get? fields "candidate_id" = some (.string c.id)
  provider : Table.get? fields "inventory_provider" = some (.string c.provider)
  inventoryType : Table.get? fields "inventory_type" = some (.string c.inventoryType)
  cost : ∃ n, Table.get? fields "cost" = some (.number n) ∧ n.toFloat = c.cost
  attributes : c.attributes = fields.filter fun f => f.1 ∉ shape.names

theorem reader_eq_ok {drafts : List (Except Break String × Draft)} {entries : List (String × Json)}
    (h : Draft.toFields drafts = .ok entries) (hkeys : (entries.map Prod.fst).Nodup) :
    reader m (.object drafts none) = .ok c ↔ c.ReadFrom (Table.ofList entries) := by
  have hrest := Table.ofList_filter hkeys fun k => decide (k ∉ shape.names)
  have hget : ∀ k, entries.lookup k = Table.get? (Table.ofList entries) k :=
    fun k => (Table.get?_ofList hkeys k).symm
  unfold reader Reader.map
  rw [except_map_ok]
  constructor
  · rintro ⟨⟨⟨id, provider, inventoryType, cost⟩, attributes⟩, hread, rfl⟩
    obtain ⟨hfound, rfl⟩ := (Record.readOpen_eq_ok h).1 hread
    obtain ⟨hid, hfound⟩ := Record.and_eq_found.1 hfound
    obtain ⟨hprovider, hfound⟩ := Record.and_eq_found.1 hfound
    obtain ⟨hinventoryType, hfound⟩ := Record.and_eq_found.1 hfound
    obtain ⟨v, hid, rfl⟩ := (Record.required_eq_found Reader.reads_string h hkeys).1 hid
    obtain ⟨v, hprovider, rfl⟩ := (Record.required_eq_found Reader.reads_string h hkeys).1 hprovider
    obtain ⟨v, hinventoryType, rfl⟩ :=
      (Record.required_eq_found Reader.reads_string h hkeys).1 hinventoryType
    obtain ⟨v, hcost, n, rfl, rfl⟩ := (Record.required_eq_found Reader.reads_float h hkeys).1 hfound
    exact ⟨hget _ ▸ hid, hget _ ▸ hprovider, hget _ ▸ hinventoryType,
      ⟨n, hget _ ▸ hcost, rfl⟩, hrest⟩
  · rintro ⟨hid, hprovider, hinventoryType, ⟨n, hcost, hvalue⟩, hattributes⟩
    refine ⟨((c.id, c.provider, c.inventoryType, c.cost), c.attributes),
      (Record.readOpen_eq_ok h).2 ⟨?_, hattributes.trans hrest.symm⟩, rfl⟩
    rw [← hget] at hid hprovider hinventoryType hcost
    refine Record.and_eq_found.2 ⟨(Record.required_eq_found Reader.reads_string h hkeys).2 ⟨_, hid,
      rfl⟩, ?_⟩
    refine Record.and_eq_found.2
      ⟨(Record.required_eq_found Reader.reads_string h hkeys).2 ⟨_, hprovider, rfl⟩, ?_⟩
    refine Record.and_eq_found.2
      ⟨(Record.required_eq_found Reader.reads_string h hkeys).2 ⟨_, hinventoryType, rfl⟩, ?_⟩
    exact (Record.required_eq_found Reader.reads_float h hkeys).2 ⟨_, hcost, n, rfl, hvalue⟩

/-! ### What is written -/

/-- With a finite cost, an attribute is what stands under its name in the record. -/
theorem attribute?_eq_get? (hcost : c.cost.isFinite = true) (key : String) :
    c.attribute? key = Table.get? c.fields key := by
  unfold attribute?
  rw [if_pos hcost]
  rfl

/-- A record with the cost of a candidate in place of its own. -/
def rewritten (fields : Table Json) (c : Candidate) : Table Json :=
  fields.map fun f => (f.1, if f.1 = "cost" then .real c.cost else f.2)

theorem get?_rewritten (fields : Table Json) (c : Candidate) (key : String) :
    Table.get? (rewritten fields c) key =
      (Table.get? fields key).map fun v => if key = "cost" then .real c.cost else v :=
  Table.get?_map (fun k v => if k = "cost" then Json.real c.cost else v) fields key

theorem sorted_rewritten (hfields : Table.Sorted fields) : Table.Sorted (rewritten fields c) :=
  List.pairwise_map.2 hfields

namespace ReadFrom

variable (h : c.ReadFrom fields)
include h

theorem get?_attributes (key : String) :
    Table.get? c.attributes key = if key ∈ shape.names then none else Table.get? fields key := by
  have hfilter := Table.get?_filter (fun k => decide (k ∉ shape.names)) fields key
  rw [h.attributes, hfilter]
  simp

/-- No two fields of what is written have one key. -/
theorem nodup_fields (hfields : Table.Sorted fields) : (c.fields.map Prod.fst).Nodup := by
  have hattributes : Table.Sorted c.attributes := by
    rw [h.attributes]
    exact hfields.filter _
  have happend : c.fields.map Prod.fst = shape.names ++ c.attributes.map Prod.fst := rfl
  rw [happend, List.nodup_append]
  refine ⟨by decide, hattributes.nodup_keys, fun k hk k' hk' heq => ?_⟩
  have hsome := Table.get?_isSome.2 hk'
  rw [h.get?_attributes, if_pos (heq ▸ hk)] at hsome
  cases hsome

/-- Under every key stands what was read under it. -/
theorem get?_fields (key : String) :
    Table.get? c.fields key = Table.get? (rewritten fields c) key := by
  have hattributes := h.get?_attributes key
  obtain ⟨n, hcost, -⟩ := h.cost
  rw [get?_rewritten]
  unfold Candidate.fields
  by_cases hid : key = "candidate_id"
  · subst hid
    simp [Table.get?, h.id]
  by_cases hprovider : key = "inventory_provider"
  · subst hprovider
    simp [Table.get?, h.provider]
  by_cases hinventoryType : key = "inventory_type"
  · subst hinventoryType
    simp [Table.get?, h.inventoryType]
  by_cases hkey : key = "cost"
  · subst hkey
    simp [Table.get?, hcost]
  · have hnames : key ∉ shape.names := by
      have hlist : shape.names = ["candidate_id", "inventory_provider", "inventory_type", "cost"] :=
        rfl
      simp [hlist, hid, hprovider, hinventoryType, hkey]
    rw [if_neg hnames] at hattributes
    simp [Table.get?, hid, hprovider, hinventoryType, hkey, hattributes]

theorem toJson_eq (hfields : Table.Sorted fields) : c.toJson = .object (rewritten fields c) := by
  refine congrArg Json.object (Table.eq_of_get? (Table.sorted_ofList _) (sorted_rewritten hfields)
    fun key => ?_)
  rw [Table.get?_ofList (h.nodup_fields hfields), ← Table.get?_eq_lookup, h.get?_fields]

/-- What is written is read as the candidate again. -/
theorem of_rewritten : c.ReadFrom (rewritten fields c) where
  id := by simp [get?_rewritten, h.id]
  provider := by simp [get?_rewritten, h.provider]
  inventoryType := by simp [get?_rewritten, h.inventoryType]
  cost := by
    obtain ⟨n, hcost, -⟩ := h.cost
    exact ⟨.real c.cost, by simp [get?_rewritten, hcost, Json.real], rfl⟩
  attributes := by
    have hkept : ∀ f ∈ fields.filter fun f => f.1 ∉ shape.names,
        (f.1, if f.1 = "cost" then Json.real c.cost else f.2) = f := fun f hf => by
      have hname : f.1 ≠ "cost" :=
        fun heq => of_decide_eq_true (List.mem_filter.1 hf).2 (heq ▸ by decide)
      rw [if_neg hname]
    rw [h.attributes, rewritten, List.filter_map]
    exact ((List.map_congr_left hkept).trans (List.map_id _)).symm

theorem isFinite_cost (hfields : (Json.object fields).Proper) : c.cost.isFinite = true := by
  obtain ⟨n, hcost, hvalue⟩ := h.cost
  cases hfields with
  | object _ hfields =>
    have hnumber := hfields _ (Table.mem_of_get? hcost)
    cases hnumber with
    | number hn => exact hvalue ▸ hn.isFinite_toFloat

theorem proper_rewritten (hfields : (Json.object fields).Proper) :
    (Json.object (rewritten fields c)).Proper := by
  have hcost := h.isFinite_cost hfields
  cases hfields with
  | object hkeys hfields =>
    refine .object (sorted_rewritten hkeys) fun f hf => ?_
    obtain ⟨f', hf', rfl⟩ := List.mem_map.1 hf
    dsimp only
    split
    · exact .number hcost
    · exact hfields f' hf'

end ReadFrom

/-! ### What is read -/

/-- In memory an object is read as it is. -/
theorem reader_object (hfields : (Json.object fields).Proper) :
    reader m (.ofJson (.object fields)) = .ok c ↔ c.ReadFrom fields := by
  have hvalue := Draft.toJson_ofJson hfields
  rw [Draft.ofJson] at hvalue ⊢
  cases hfields with
  | object hkeys hfields =>
    have hread := Draft.toFields_ofFields fun f hf => Draft.toJson_ofJson (hfields f hf)
    rw [reader_eq_ok hread hkeys.nodup_keys, Table.ofList_of_sorted hkeys]

theorem document_eq_ok {text : String} (h : Json.Spells text fields) :
    Reader.document reader text = .ok c ↔ c.ReadFrom fields := by
  have hvalue := h.value
  have hkeys := h.keys
  unfold Json.ofText at hvalue
  unfold Reader.document
  generalize Draft.ofText text = read at hvalue hkeys
  obtain ⟨d, trailing⟩ := read
  obtain ⟨v, hv, hvalue⟩ := (except_bind_ok _ _ _).1 hvalue
  cases trailing with
  | true => cases hvalue
  | false =>
    cases hvalue
    obtain ⟨drafts, entries, rfl, hentries, rfl⟩ := Draft.exists_of_toJson_object hv
    have hnodup := hkeys drafts none rfl
    rw [Draft.toFields_keys hentries] at hnodup
    rw [← reader_eq_ok (m := .text) hentries hnodup.of_map]
    simp [except_bind_ok]

/-- A record has a candidate if its identity fields are strings and its cost is a number. -/
theorem exists_readFrom_iff : (∃ c, ReadFrom fields c) ↔
    (∀ key ∈ ["candidate_id", "inventory_provider", "inventory_type"], ∃ s, Table.get? fields key =
      some (.string s)) ∧
      ∃ n, Table.get? fields "cost" = some (.number n) := by
  simp only [List.forall_mem_cons]
  constructor
  · rintro ⟨c, h⟩
    obtain ⟨n, hcost, -⟩ := h.cost
    exact ⟨⟨⟨_, h.id⟩, ⟨_, h.provider⟩, ⟨_, h.inventoryType⟩, List.forall_mem_nil _⟩, n, hcost⟩
  · rintro ⟨⟨⟨id, hid⟩, ⟨provider, hprovider⟩, ⟨inventoryType, hinventoryType⟩, -⟩, n, hcost⟩
    exact ⟨⟨id, provider, inventoryType, n.toFloat, _⟩, hid, hprovider, hinventoryType,
      ⟨n, hcost, rfl⟩, rfl⟩

/-- An object, as JSON holds it, is read as a candidate exactly if its identity fields are strings
and its cost is a number, in memory and from every text that spells it. The cost of what is read is
finite, and none of its attributes has the name of an identity field. Writing it gives the same
object with the cost as a double, which is as JSON holds it and is read as the same candidate again,
and every attribute is what stands under its name in what is written. What a text spells is as JSON
holds it. -/
theorem read_and_written (hfields : (Json.object fields).Proper) (m : Medium) :
    ((∃ c, reader m (.ofJson (.object fields)) = .ok c) ↔
      (∀ key ∈ ["candidate_id", "inventory_provider", "inventory_type"],
        ∃ s, Table.get? fields key = some (.string s)) ∧
          ∃ n, Table.get? fields "cost" = some (.number n)) ∧
    (∀ c, reader m (.ofJson (.object fields)) = .ok c →
      c.cost.isFinite = true ∧
      (∃ n, Table.get? fields "cost" = some (.number n) ∧ c.cost = n.toFloat) ∧
      (∀ key ∈ ["candidate_id", "inventory_provider", "inventory_type", "cost"],
        Table.get? c.attributes key = none) ∧
      c.toJson = .object (fields.map fun f => (f.1, if f.1 = "cost" then .real c.cost else f.2)) ∧
      c.toJson.Proper ∧ (∀ m', reader m' (.ofJson c.toJson) = .ok c) ∧
      ∀ written, c.toJson = .object written → ∀ key, c.attribute? key = Table.get? written key) ∧
    (∀ text, Json.Spells text fields → ∀ c,
      (Reader.document reader text = .ok c ↔ reader m (.ofJson (.object fields)) = .ok c)) ∧
    ∀ text v, Json.ofText text = .ok v → v.Proper := by
  have hkeys : Table.Sorted fields := by
    cases hfields with
    | object hkeys _ => exact hkeys
  refine ⟨?_, fun c hread => ?_, fun text htext c => ?_, fun text v => Json.proper_of_ofText⟩
  · rw [← exists_readFrom_iff]
    exact exists_congr fun c => reader_object hfields
  · have hc := (reader_object hfields).1 hread
    have hcost := hc.isFinite_cost hfields
    have hwritten := hc.toJson_eq hkeys
    have hproper := hc.proper_rewritten hfields
    obtain ⟨n, hn, hvalue⟩ := hc.cost
    refine ⟨hcost, ⟨n, hn, hvalue.symm⟩, fun key hkey => ?_, hwritten, hwritten ▸ hproper,
      fun m' => ?_, fun written heq key => ?_⟩
    · rw [hc.get?_attributes]
      exact if_pos hkey
    · rw [hwritten]
      exact (reader_object hproper).2 hc.of_rewritten
    · rw [hwritten] at heq
      cases heq
      rw [attribute?_eq_get? hcost, hc.get?_fields]
  · rw [document_eq_ok htext, reader_object hfields]

/-- A record with a number for its cost and numbers among its attributes, one of them nested. -/
def spare : Table Json :=
  [("candidate_id", .string "a1"), ("cost", .int 3),
    ("flavors", .array [.object [("cpus", .int 8)], .null]), ("inventory_provider", .string "aai"),
    ("inventory_type", .string "cloud"), ("weight", .int 3)]

/-- The record in another order of its fields. -/
def spareText : String :=
  "\x7b\"inventory_type\": \"cloud\", \"inventory_provider\": \"aai\", " ++
    "\"weight\": 3, \"cost\": 3, \"flavors\": [\x7b\"cpus\": 8\x7d, null], " ++
    "\"candidate_id\": \"a1\"\x7d"

theorem spells_spare : Json.Spells spareText spare := by
  have hdraft : Draft.ofText spareText = (.object
      [(.ok "inventory_type", .string "cloud"), (.ok "inventory_provider", .string "aai"),
        (.ok "weight", .number (.int 3)), (.ok "cost", .number (.int 3)),
        (.ok "flavors", .array [.object [(.ok "cpus", .number (.int 8))] none, .null] none),
        (.ok "candidate_id", .string "a1")] none, false) := by cbv
  refine ⟨?_, fun drafts stop h => ?_⟩
  · unfold Json.ofText
    rw [hdraft]
    rfl
  · rw [hdraft] at h
    cases h
    decide

theorem read_and_written_spare :
    (Json.object spare).Proper ∧ Json.Spells spareText spare ∧
    ∃ c, Reader.document reader spareText = .ok c ∧ c.cost = Float.ofInt 3 ∧
      (∀ m, reader m (.ofJson c.toJson) = .ok c) ∧ c.attribute? "weight" = some (.int 3) := by
  have hproper := Json.proper_of_ofText spells_spare.value
  obtain ⟨hexists, hread, htext, -⟩ := read_and_written hproper .text
  obtain ⟨c, hc⟩ := hexists.2 ⟨by simp [spare, Table.get?], _, rfl⟩
  obtain ⟨-, ⟨n, hn, hcost⟩, -, hwritten, -, hagain, hattribute⟩ := hread c hc
  cases hn
  refine ⟨hproper, spells_spare, c, (htext _ spells_spare c).2 hc, hcost, hagain, ?_⟩
  rw [hattribute _ hwritten]
  rfl

end Candidate

end Placement
